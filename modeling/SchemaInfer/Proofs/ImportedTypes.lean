import SchemaInfer.Proofs.Calls
import SchemaInfer.Proofs.JoinLeastUpperBound
import SchemaInfer.Proofs.JsonSchemaTypes
import SchemaInfer.Schema.Source

/-!
# Imported types are well-formed

Every type that a schema describes is well-formed, whatever the document says: the unions inside of it
have two members or more, no union among them and no two of them equal. For JSON Schemas this is part of
`JsonSchema.toType_describable`. For XML Schemas and Avro schemas the proofs below follow the recursion of
the conversions. With the closure of well-formed types under the operations on types and under inference,
`operations_keep_wellFormed` says that no operation leaves the well-formed types.
-/

namespace SchemaInfer

open Ty (WellFormed)

namespace Ty

variable {ps : Properties} {name : String} {p : Property Ty} {isOpen : Bool}

theorem wellFormed_object_nil : (object [] isOpen).WellFormed :=
  WellFormed.object_iff.mpr ⟨List.nodup_nil, Entries.All.nil⟩

theorem wellFormed_object_insert (hps : (object ps isOpen).WellFormed) (hp : p.ty.WellFormed) :
    (object (Entries.insert name p ps) isOpen).WellFormed := by
  obtain ⟨hkeys, htypes⟩ := WellFormed.object_iff.mp hps
  refine WellFormed.object_iff.mpr ⟨Entries.nodup_keys_insert hkeys, ?_⟩
  exact Entries.All.insert (P := fun p : Property Ty => p.ty.WellFormed) hp htypes

end Ty

/-! ### XML Schemas -/

namespace Xsd

open Ty (wellFormed_object_insert wellFormed_object_nil)

variable {ps : Properties} {name : String} {p : Property Ty} {r : Resolver (Except ImportError)}

theorem wellFormed_builtin? {t : Ty} (h : builtin? name = some t) : t.WellFormed := by
  unfold builtin? at h
  split_ifs at h
  all_goals exact Option.some.inj h ▸ .of_isPrimitive rfl

theorem wellFormed_apply {outer : Multiplicity} (hp : p.ty.WellFormed) :
    (outer.apply p).ty.WellFormed := by
  have hoptional : ∀ q : Property Ty, q.ty = p.ty →
      (if outer.repeated && !q.isRepeated then { q with ty := .array q.ty, maxOccurs := unbounded }
        else q).ty.WellFormed := by
    intro q hq
    split
    · exact WellFormed.array_iff.mpr (hq ▸ hp)
    · exact hq ▸ hp
  unfold Multiplicity.apply
  dsimp only
  split
  · exact hoptional _ rfl
  · exact hoptional p rfl

theorem wellFormed_occurrenceType (hp : p.ty.WellFormed) : (occurrenceType p).WellFormed := by
  unfold occurrenceType
  split
  · rename_i t hty _
    exact WellFormed.array_iff.mp (hty ▸ hp)
  · exact hp

theorem wellFormed_addElement (hps : (Ty.object ps false).WellFormed) (hp : p.ty.WellFormed) :
    (Ty.object (addElement name p ps) false).WellFormed := by
  unfold addElement
  split
  · exact wellFormed_object_insert hps hp
  · rename_i q hq
    have hqty : q.ty.WellFormed := (WellFormed.object_iff.mp hps).2 name q (Entries.mem_of_lookup hq)
    refine wellFormed_object_insert hps (WellFormed.array_iff.mpr ?_)
    exact wellFormed_invariant.join (wellFormed_occurrenceType hqty) (wellFormed_occurrenceType hp)

namespace Resolver

/-- A resolver that knows well-formed types only. -/
structure WellFormed (r : Resolver (Except ImportError)) : Prop where
  named : ∀ name, Yields Ty.WellFormed (r.named name)
  element : ∀ reference, Yields (fun found => found.2.1.WellFormed) (r.element reference)

theorem simpleType_wellFormed (hr : r.WellFormed) (type : SimpleType) :
    Yields Ty.WellFormed (r.simpleType type) := by
  unfold simpleType
  split
  · exact (hr.named _).bind fun t ht => Ty.WellFormed.array_iff.mpr ht
  · exact hr.named _
  · exact Ty.WellFormed.of_isPrimitive rfl
  · exact Ends.bind (Ends.mapM fun name _ => hr.named name) fun types htypes =>
      Ty.wellFormed_oneOf htypes

theorem attributeType_wellFormed (hr : r.WellFormed) (attr : Attribute) :
    Yields Ty.WellFormed (r.attributeType attr) := by
  unfold attributeType
  split
  · exact simpleType_wellFormed hr _
  · exact hr.named _
  · exact Ty.WellFormed.of_isPrimitive rfl

theorem attributes_wellFormed (hr : r.WellFormed) (attrs : List Attribute) {ps : Properties}
    (hps : (Ty.object ps false).WellFormed) :
    Yields (fun ps => (Ty.object ps false).WellFormed) (r.attributes attrs ps) := by
  induction attrs generalizing ps with
  | nil => exact hps
  | cons attr attrs ih =>
    rw [attributes]
    split
    · exact ih hps
    · refine (attributeType_wellFormed hr attr).bind fun t ht => ih (wellFormed_object_insert hps ?_)
      dsimp only
      split
      · exact ht
      · exact ht

theorem content_wellFormed (hr : r.WellFormed) (simpleContent : Option String) (mixed : Bool)
    (hps : (Ty.object ps false).WellFormed) :
    Yields (fun ps => (Ty.object ps false).WellFormed) (r.content simpleContent mixed ps) := by
  unfold content
  split
  · exact (hr.named _).bind fun t ht => wellFormed_object_insert hps ht
  · exact wellFormed_object_insert hps (.of_isPrimitive rfl)
  · exact hps

theorem declare_wellFormed (hr : r.WellFormed) (element : Element) {own : Except ImportError Ty}
    (hown : Yields Ty.WellFormed own) :
    Yields (fun declared => declared.2.ty.WellFormed) (r.declare element own) := by
  have hproperty : ∀ found : String × Ty × Option String, found.2.1.WellFormed →
      (if isRepeated element.maxOccurs then Ty.array found.2.1 else found.2.1).WellFormed := by
    intro found hfound
    split
    · exact Ty.WellFormed.array_iff.mpr hfound
    · exact hfound
  unfold declare
  dsimp only
  split
  · exact (hr.element _).bind hproperty
  · rename_i name _ _
    exact hown.bind fun ty hty => hproperty (name, ty, element.documentation) hty
  · trivial

theorem choiceOf_wellFormed {branches : List Ty} {occurs : Multiplicity}
    (hbranches : ∀ t ∈ branches, t.WellFormed) : (choiceOf branches occurs).ty.WellFormed := by
  unfold choiceOf
  dsimp only
  split
  · exact Ty.WellFormed.array_iff.mpr (Ty.wellFormed_oneOf hbranches)
  · exact Ty.wellFormed_oneOf hbranches

mutual

theorem elementType_wellFormed (hr : r.WellFormed) :
    ∀ element, Yields Ty.WellFormed (r.elementType element)
  | ⟨_, _, typeName, complexType, simpleType, _, _, nillable, _⟩ => by
    have hnillable : ∀ t : Ty, t.WellFormed →
        (if nillable then t.orNull else t).WellFormed := by
      intro t ht
      split
      · exact wellFormed_invariant.orNull ht
      · exact ht
    rw [elementType.eq_def]
    dsimp only
    cases complexType with
    | some type => exact (complexType_wellFormed hr type).bind hnillable
    | none =>
      cases simpleType with
      | some type => exact (simpleType_wellFormed hr type).bind hnillable
      | none =>
        cases typeName with
        | some name => exact (hr.named name).bind hnillable
        | none => exact hnillable .any (.of_isPrimitive rfl)
termination_by structural element => element

theorem complexType_wellFormed (hr : r.WellFormed) :
    ∀ type, Yields Ty.WellFormed (r.complexType type)
  | ⟨_, content, attributes, simpleContent, mixed⟩ => by
    rw [complexType]
    refine (attributes_wellFormed hr attributes wellFormed_object_nil).bind fun ps hps => ?_
    refine (content_wellFormed hr simpleContent mixed hps).bind fun ps hps => ?_
    cases content with
    | some particle => exact (particle_wellFormed hr .once particle (ps, 0) hps).bind fun _ h => h
    | none => exact hps
termination_by structural type => type

theorem particle_wellFormed (hr : r.WellFormed) (outer : Multiplicity) :
    ∀ particle state, (Ty.object state.1 false).WellFormed →
      Yields (fun after => (Ty.object after.1 false).WellFormed) (r.particle outer particle state)
  | .element element, (ps, choices), hps => by
    rw [particle]
    refine (declare_wellFormed hr element (elementType_wellFormed hr element)).bind fun declared h => ?_
    exact wellFormed_addElement hps (wellFormed_apply h)
  | .group .choice particles minOccurs maxOccurs, (ps, choices), hps => by
    rw [particle]
    refine (branches_wellFormed hr particles).bind fun branches hbranches => ?_
    exact wellFormed_object_insert hps (choiceOf_wellFormed hbranches)
  | .group .sequence particles minOccurs maxOccurs, state, hps => by
    rw [particle]
    · exact particles_wellFormed hr _ particles state hps
    · simp
  | .group .all particles minOccurs maxOccurs, state, hps => by
    rw [particle]
    · exact particles_wellFormed hr _ particles state hps
    · simp
termination_by structural particle => particle

theorem particles_wellFormed (hr : r.WellFormed) (outer : Multiplicity) :
    ∀ particles state, (Ty.object state.1 false).WellFormed →
      Yields (fun after => (Ty.object after.1 false).WellFormed) (r.particles outer particles state)
  | [], _, hps => hps
  | first :: rest, state, hps => by
    rw [particles]
    refine (particle_wellFormed hr outer first state hps).bind fun state hstate => ?_
    exact particles_wellFormed hr outer rest state hstate
termination_by structural particles => particles

theorem branches_wellFormed (hr : r.WellFormed) :
    ∀ particles, Yields (fun types => ∀ t ∈ types, t.WellFormed) (r.branches particles)
  | [] => List.forall_mem_nil _
  | first :: rest => by
    rw [branches]
    refine (particle_wellFormed hr .once first ([], 0) wellFormed_object_nil).bind fun state hstate => ?_
    refine (branches_wellFormed hr rest).bind fun types htypes => ?_
    exact List.forall_mem_cons.mpr ⟨hstate, htypes⟩
termination_by structural particles => particles

end

end Resolver

/-- How a schema resolves names where only the `available` definitions may be expanded. -/
def Schema.resolverAmong (schema : Schema) (available : List String) : Resolver (Except ImportError) where
  named := expandType schema available
  element := expandElement schema available

/-- Definitions are expanded along the list of those that may be expanded, which gets shorter. -/
theorem wellFormed_resolverAmong (schema : Schema) (available : List String) :
    (schema.resolverAmong available).WellFormed := by
  induction hlength : available.length using Nat.strongRecOn generalizing available with
  | _ length ih =>
  subst hlength
  have hrest : ∀ rest : List String, rest.length < available.length →
      (schema.resolverAmong rest).WellFormed := fun rest hlt => ih _ hlt rest rfl
  constructor
  · intro name
    change Yields Ty.WellFormed (expandType schema available name)
    rw [expandType]
    dsimp only
    split
    · split
      · rename_i hty
        exact wellFormed_builtin? hty
      · trivial
    · split
      · exact .expanding fun rest hlt => Resolver.complexType_wellFormed (hrest rest hlt) _
      · exact .expanding fun rest hlt => Resolver.simpleType_wellFormed (hrest rest hlt) _
      · split
        · rename_i hty
          exact wellFormed_builtin? hty
        · trivial
  · intro reference
    change Yields _ (expandElement schema available reference)
    rw [expandElement]
    dsimp only
    split
    · trivial
    · refine .expanding fun rest hlt => ?_
      exact (Resolver.elementType_wellFormed (hrest rest hlt) _).bind fun ty hty => hty

theorem toType_wellFormed (schema : Schema) : Yields Ty.WellFormed schema.toType := by
  have hr : schema.resolver.WellFormed := wellFormed_resolverAmong schema schema.keys
  unfold Schema.toType
  refine Ends.bind (Ends.mapM fun element _ =>
    Resolver.declare_wellFormed hr element (Resolver.elementType_wellFormed hr element)) ?_
  intro declared hdeclared
  dsimp only
  split
  · rename_i name p
    have hp : p.ty.WellFormed := hdeclared (name, p) List.mem_cons_self
    exact WellFormed.object_iff.mpr ⟨List.nodup_singleton name, Entries.All.cons_iff.mpr ⟨hp, .nil⟩⟩
  · refine wellFormed_invariant.closedObject fun name p hp => ?_
    obtain ⟨⟨_, q⟩, hq, heq⟩ := List.mem_map.mp hp
    obtain ⟨rfl, rfl⟩ := Prod.mk.inj heq
    exact hdeclared _ hq

end Xsd

/-! ### Avro schemas -/

namespace Avro.Schema

theorem fieldProperty_ty (field : Field) (ty : Ty) : (fieldProperty field ty).ty = ty := by
  unfold fieldProperty
  split <;> rfl

theorem sizeOf_schema_lt (field : Field) : sizeOf field.schema < sizeOf field := by
  cases field
  simp +arith

mutual

theorem convert_wellFormed (defined : List (String × Schema)) (available : List String)
    (schema : Schema) : Yields WellFormed (convert defined available schema) := by
  have hrecord : ∀ (name : Name) (fields : List Field), Yields WellFormed
      (Expansion.expanding name.full available fun rest _ => do
        return Ty.closedObject (← convertFields defined rest fields)) := by
    intro name fields
    refine .expanding fun rest hlt => ?_
    refine (convertFields_wellFormed defined rest fields).bind fun ps hps => ?_
    exact wellFormed_invariant.closedObject hps
  cases schema with
  | record name doc fields =>
    rw [convert]
    exact hrecord name fields
  | array items =>
    rw [convert]
    exact (convert_wellFormed defined available items).bind fun t ht => WellFormed.array_iff.mpr ht
  | union branches =>
    rw [convert]
    exact (convertAll_wellFormed defined available branches).bind fun ts hts => Ty.wellFormed_oneOf hts
  | logical type base =>
    rw [convert]
    split
    · exact WellFormed.of_isPrimitive rfl
    · exact convert_wellFormed defined available base
  | named reference =>
    rw [convert]
    split
    · trivial
    · exact hrecord _ _
    · exact WellFormed.of_isPrimitive rfl
  | map values =>
    rw [convert]
    exact Ty.wellFormed_object_nil
  | null | boolean | int | long | float | double | bytes | string | enum name symbols doc
  | fixed name size =>
    rw [convert]
    exact WellFormed.of_isPrimitive rfl
termination_by (available.length, sizeOf schema)

theorem convertAll_wellFormed (defined : List (String × Schema)) (available : List String)
    (schemas : List Schema) :
    Yields (fun types => ∀ t ∈ types, t.WellFormed) (convertAll defined available schemas) := by
  cases schemas with
  | nil =>
    rw [convertAll]
    exact List.forall_mem_nil _
  | cons schema others =>
    rw [convertAll]
    refine (convert_wellFormed defined available schema).bind fun t ht => ?_
    refine (convertAll_wellFormed defined available others).bind fun ts hts => ?_
    exact List.forall_mem_cons.mpr ⟨ht, hts⟩
termination_by (available.length, sizeOf schemas)

theorem convertFields_wellFormed (defined : List (String × Schema)) (available : List String)
    (fields : List Field) : Yields (Entries.All fun p => p.ty.WellFormed)
      (convertFields defined available fields) := by
  cases fields with
  | nil =>
    rw [convertFields]
    exact Entries.All.nil
  | cons field others =>
    have hsize := sizeOf_schema_lt field
    rw [convertFields]
    refine (convert_wellFormed defined available field.schema).bind fun t ht => ?_
    refine (convertFields_wellFormed defined available others).bind fun ps hps => ?_
    exact Entries.All.cons_iff.mpr ⟨(fieldProperty_ty field t).symm ▸ ht, hps⟩
termination_by (available.length, sizeOf fields)

end

theorem toType_wellFormed (schema : Schema) : Yields WellFormed schema.toType :=
  convert_wellFormed _ _ schema

end Avro.Schema

theorem Source.toType_wellFormed (source : Source) : Yields WellFormed source.toType := by
  cases source with
  | xsd schema => exact Xsd.toType_wellFormed schema
  | jsonSchema document =>
    exact .of_forall fun t ht => ((JsonSchema.toType_describable document).of_eq_ok ht).wellFormed
  | avro schema => exact Avro.Schema.toType_wellFormed schema

/-! ### All operations -/

theorem Scope.AllBound.bind {Good : Ty → Prop} {scope : Scope} {path : String} {t : Ty}
    (hscope : scope.AllBound Good) (ht : Good t) : (scope.bind path t).AllBound Good := by
  obtain ⟨hbindings, houter⟩ := List.forall_mem_cons.mp hscope
  exact List.forall_mem_cons.mpr ⟨hbindings.insert ht, houter⟩

theorem Scope.AllBound.foldl_bind {Good : Ty → Prop} {scope : Scope} {ps : Properties}
    (hscope : scope.AllBound Good) (hps : Entries.All (fun p => Good p.ty) ps) :
    (ps.foldl (fun scope entry => scope.bind (inputName ++ "." ++ entry.1) entry.2.ty) scope).AllBound
      Good := by
  induction ps generalizing scope with
  | nil => exact hscope
  | cons entry ps ih =>
    obtain ⟨hp, hps⟩ := Entries.All.cons_iff.mp hps
    exact ih (hscope.bind hp) hps

theorem Scope.wellFormed_ofInput {t : Ty} (ht : t.WellFormed) :
    (Scope.ofInput t).AllBound WellFormed := by
  have hempty : Scope.empty.AllBound WellFormed :=
    List.forall_mem_cons.mpr ⟨Entries.All.nil, List.forall_mem_nil _⟩
  refine Scope.AllBound.bind ?_ ht
  cases t with
  | object ps isOpen => exact hempty.foldl_bind (WellFormed.object_iff.mp ht).2
  | _ => exact hempty

/-- **No operation leaves the well-formed types.** Unions, the two ways to combine types, both forms of
putting types for variables, adding and removing null, and paths lead from well-formed types to
well-formed types. Every schema of every dialect describes a well-formed type, which makes a scope of
well-formed types. In such a scope, and with signatures of well-formed types, the inferred type is
well-formed, or all types that the error shows are. -/
theorem operations_keep_wellFormed {library : Library} {scope : Scope} {σ : Assignment}
    {types : List Ty} {a b : Ty} (hlibrary : library.AllDeclared WellFormed)
    (hscope : scope.AllBound WellFormed) (hσ : Entries.All WellFormed σ)
    (htypes : ∀ t ∈ types, t.WellFormed) (ha : a.WellFormed) (hb : b.WellFormed) :
    (Ty.oneOf types).WellFormed ∧ (a.either b).WellFormed ∧ (a.join b).WellFormed ∧
      (a.subst σ).WellFormed ∧ (a.ground σ).WellFormed ∧
      a.orNull.WellFormed ∧ a.withoutNull.WellFormed ∧
      (∀ segments t, a.follow? segments = some t → t.WellFormed) ∧
      (∀ path t, scope.resolve? path = some t → t.WellFormed) ∧
      (∀ source t, Source.toType source = .ok t →
        t.WellFormed ∧ (Scope.ofInput t).AllBound WellFormed) ∧
      ∀ expr, Ends WellFormed (TypeError.Shows WellFormed) (Typing.infer library scope expr) := by
  refine ⟨Ty.wellFormed_oneOf htypes, Ty.wellFormed_either ha hb, Ty.wellFormed_join ha hb,
    Ty.wellFormed_subst ha hσ, Ty.wellFormed_ground ha hσ, wellFormed_invariant.orNull ha,
    wellFormed_invariant.withoutNull ha, ?_, ?_, ?_, ?_⟩
  · exact fun segments t ht => wellFormed_invariant.follow? ha ht
  · exact fun path t ht => wellFormed_invariant.resolve? hscope ht
  · intro source t ht
    have hwf : t.WellFormed := source.toType_wellFormed.of_eq_ok ht
    exact ⟨hwf, Scope.wellFormed_ofInput hwf⟩
  · exact fun expr => wellFormed_invariant.infer hlibrary hscope

/-- Putting one type for both variables makes two members of the union equal, so one of them goes. -/
theorem operations_keep_wellFormed_of_coinciding_members :
    let t : Ty := .union [.array (.var "A"), .array (.var "B"), .null]
    let σ : Assignment := [("A", .string), ("B", .string)]
    let scope : Scope := Scope.empty.bind "x" t
    t.WellFormed ∧ Entries.All WellFormed σ ∧ scope.AllBound WellFormed ∧
      t.subst σ = .union [.array .string, .null] ∧ (t.subst σ).WellFormed ∧
      (t.either (.union [.null, .boolean])).WellFormed ∧
      Ends WellFormed (TypeError.Shows WellFormed)
        (Typing.infer .standard scope (.array [.path "x" none, .path "x.0" none] none)) := by
  intro t σ scope
  have ht : t.WellFormed := by decide
  have hσ : Entries.All WellFormed σ := by decide
  have hscope : scope.AllBound WellFormed := by decide
  obtain ⟨_, heither, _, hsubst, _, _, _, _, _, _, hinfer⟩ :=
    operations_keep_wellFormed Library.wellFormed_standard hscope hσ
      (List.forall_mem_singleton.mpr ht) ht (b := .union [.null, .boolean]) (by decide)
  exact ⟨ht, hσ, hscope, rfl, hsubst, heither, hinfer _⟩

end SchemaInfer
