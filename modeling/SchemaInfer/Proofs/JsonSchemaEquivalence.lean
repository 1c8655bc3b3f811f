import SchemaInfer.Proofs.JsonSchemaRoundTrip

/-!
# What comes back from a JSON Schema is equivalent

With arbitrary occurrence counts a type does not come back equal: the counts are lost, and alternatives
that differ in nothing else become one. Subtyping does not look at the counts but only at whether a
property may be absent, which a schema keeps. So the type that comes back is a subtype and a supertype
of the one that was exported, however many of its alternatives have fallen together.
-/

namespace SchemaInfer

namespace Ty

variable {t : Ty} {ps : Properties}

theorem fits_both_objectThroughSchema {isOpen : Bool} (hkeys : (Entries.keys ps).Nodup)
    (h : ∀ name p, (name, p) ∈ ps → Fits p.ty p.ty.throughSchema ∧ Fits p.ty.throughSchema p.ty) :
    Fits (object ps isOpen) (object (propertiesThroughSchema ps) isOpen) ∧
      Fits (object (propertiesThroughSchema ps) isOpen) (object ps isOpen) := by
  apply fits_both_object hkeys
  · intro name
    rw [keys_propertiesThroughSchema]
  · intro name q hq
    obtain ⟨p, hp, rfl⟩ := mem_propertiesThroughSchema hq
    rw [isOptional_writtenProperty, writtenProperty_ty]
    exact ⟨p, hp, rfl, h name p hp⟩

/-- A type and what comes back of it fit each other. In a union every member goes to one of the
alternatives that are left, whichever of its equals was kept. -/
theorem fits_both_throughSchema (ht : t.WellFormed) :
    Fits t t.throughSchema ∧ Fits t.throughSchema t := by
  induction t with
  | string | number | integer | boolean | null | any | var _ | function _ _ =>
    exact ⟨.refl ht, .refl ht⟩
  | array t ih =>
    obtain ⟨hforth, hback⟩ := ih (WellFormed.array_iff.mp ht)
    exact ⟨.array hforth, .array hback⟩
  | object ps isOpen ih =>
    obtain ⟨hkeys, hps⟩ := WellFormed.object_iff.mp ht
    rw [throughSchema]
    exact fits_both_objectThroughSchema hkeys fun name p hp => ih name p hp (hps name p hp)
  | union ms ih =>
    obtain ⟨hlength, _, _, hms⟩ := WellFormed.union_iff.mp ht
    have hmem : ∀ s, s ∈ nullLast (ms.map throughSchema) ↔ ∃ m ∈ ms, m.throughSchema = s := by
      intro s
      rw [mem_nullLast, List.mem_map]
    have hwf : ∀ s ∈ nullLast (ms.map throughSchema), s.WellFormed := by
      intro s hs
      obtain ⟨m, hm, rfl⟩ := (hmem s).mp hs
      exact wellFormed_throughSchema (hms m hm)
    rw [throughSchema, allThroughSchema_eq_map]
    constructor
    · refine .unionLeft fun m hm => ?_
      exact (ih m hm (hms m hm)).1.trans (fits_oneOf hwf ((hmem _).mpr ⟨m, hm, rfl⟩))
    · have hne : nullLast (ms.map throughSchema) ≠ [] := by
        apply List.ne_nil_of_length_pos
        rw [length_nullLast, List.length_map]
        omega
      refine (oneOf_fits_iff hne hwf).mpr fun s hs => ?_
      obtain ⟨m, hm, rfl⟩ := (hmem s).mp hs
      exact .unionRight hm (ih m hm (hms m hm)).2

end Ty

namespace JsonSchema

variable {t : Ty}

/-- **Export and import of a JSON Schema keep a type up to equivalence.** A well-formed data type, with
whatever occurrence counts, has a schema, and importing the schema gives a type that is a subtype and a
supertype of it. -/
theorem toType_ofType_equivalent (ht : t.WellFormed) (hdata : t.IsData) :
    ∃ schema back, ofType t = .ok schema ∧ toType schema = .ok back ∧
      t.subtypeOf back = true ∧ back.subtypeOf t = true := by
  obtain ⟨schema, hschema⟩ := exists_ofType hdata
  have hreads : Reads schema t.throughSchema := reads_ofType ht hschema
  have hback := Ty.wellFormed_throughSchema ht
  obtain ⟨hforth, hfits⟩ := Ty.fits_both_throughSchema ht
  exact ⟨schema, t.throughSchema, hschema, hreads _ _, Ty.subtypeOf_of_fits ht hback hforth,
    Ty.subtypeOf_of_fits hback ht hfits⟩

/-- Two of the three alternatives differ in a count only and come back as one. -/
theorem toType_ofType_equivalent_of_counts :
    let line (count : Int32) : Ty :=
      .object [("sku", { Property.mandatory .string with maxOccurs := count, minOccurs := 2 })] false
    let t : Ty := .object
      [("lines", { Property.optional (.array (.union [line 5, .null, line 7])) with required := true }),
        ("note", { Property.mandatory .string with required := false })] true
    (t.WellFormed ∧ t.IsData) ∧
      ∃ schema back, ofType t = .ok schema ∧ toType schema = .ok back ∧
        t.subtypeOf back = true ∧ back.subtypeOf t = true := by
  intro line t
  have ht : t.WellFormed := by decide
  have hdata : t.IsData := by decide
  exact ⟨⟨ht, hdata⟩, toType_ofType_equivalent ht hdata⟩

end JsonSchema

end SchemaInfer
