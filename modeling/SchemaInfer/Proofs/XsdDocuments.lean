import SchemaInfer.Proofs.RecordReading
import SchemaInfer.Xsd.Document

/-!
# XML Schemas are read back

Every record of a schema is written with all of its fields and read field by field, so it is read back if
its fields are. A particle has its kind in front of the fields, which the record behind it does not look at.
Elements, complex types and particles contain one another; for each of them there is one step from its
parts to itself, and the induction over all three puts the steps together.
-/

namespace SchemaInfer.Xsd

open Misfit (unplaced)

/-! ### Fields -/

theorem asOption_optionJson {α : Type} {write : α → Json} {read : Json → Except Misfit α} {o : Option α}
    (hnull : ∀ a, write a ≠ .null) (h : ∀ a ∈ o, read (write a) = .ok a) :
    (optionJson write o).asOption (fun part _ => read part) = .ok o := by
  cases o with
  | none => rfl
  | some a => exact Json.asOption_eq_some (hnull a) (h a rfl)

theorem text?_optionJson (o : Option String) : text? (optionJson .string o) = .ok o := by
  apply asOption_optionJson
  · intro s hs
    cases hs
  · intro s _
    rfl

theorem texts_textsJson (ss : List String) : texts (textsJson ss) = .ok ss :=
  Json.asList_strings ss

theorem bound_toInt (n : Int32) : bound (.int n.toInt) = .ok n :=
  Json.asInt32_toInt n

theorem Use.asName_name (nested : Bool) (use : Use) :
    (Json.string use.name).asName nested ofName? = .ok use := by
  cases use <;> rfl

/-! ### Simple types and attributes -/

theorem SimpleType.ofJson_toJson (type : SimpleType) : ofJson type.toJson = .ok type := by
  rw [ofJson, toJson, Json.asRecord_object fields rfl (by decide) (by decide)]
  simp [text?_optionJson, texts_textsJson, ok_bind, pure_eq_ok]

theorem asOption_simpleType (o : Option SimpleType) :
    (optionJson SimpleType.toJson o).asOption (fun part _ => SimpleType.ofJson part) = .ok o := by
  apply asOption_optionJson
  · intro type htype
    cases htype
  · intro type _
    exact type.ofJson_toJson

theorem Attribute.ofJson_toJson (nested : Bool) (attr : Attribute) :
    ofJson nested attr.toJson = .ok attr := by
  rw [ofJson, toJson, Json.asRecord_object fields rfl (by decide) (by decide)]
  simp [Json.asString, text?_optionJson, asOption_simpleType, Use.asName_name, ok_bind, pure_eq_ok]

/-! ### Elements, complex types and particles -/

theorem Element.entries_eq (element : Element) : element.entries = [
    ("name", optionJson .string element.name),
    ("ref", optionJson .string element.reference),
    ("type", optionJson .string element.typeName),
    ("complexType", optionJson ComplexType.toJson element.complexType),
    ("simpleType", optionJson SimpleType.toJson element.simpleType),
    ("minOccurs", .int element.minOccurs.toNat),
    ("maxOccurs", .int element.maxOccurs.toInt),
    ("nillable", .bool element.nillable),
    ("documentation", optionJson .string element.documentation)] := by
  obtain ⟨name, reference, typeName, complexType, simpleType, minOccurs, maxOccurs, nillable,
    documentation⟩ := element
  cases complexType <;> rfl

theorem ComplexType.entries_eq (type : ComplexType) : type.entries = [
    ("name", optionJson .string type.name),
    ("content", optionJson Particle.toJson type.content),
    ("attributes", .array (type.attributes.map Attribute.toJson)),
    ("simpleContent", optionJson .string type.simpleContent),
    ("mixed", .bool type.mixed)] := by
  obtain ⟨name, content, attributes, simpleContent, mixed⟩ := type
  cases content <;> rfl

theorem Particle.toJsonAll_eq_map (particles : List Particle) :
    toJsonAll particles = particles.map toJson := by
  induction particles with
  | nil => rfl
  | cons particle particles ih => rw [toJsonAll, ih, List.map_cons]

theorem Particle.toJson_ne_null (particle : Particle) : particle.toJson ≠ .null := by
  cases particle <;> simp [toJson]

section Steps

variable {nested : Bool}

theorem Element.ofJson_of_parts {element : Element}
    (h : ∀ type ∈ element.complexType, ComplexType.ofJson nested type.toJson = .ok type) :
    ofJson nested element.toJson = .ok element := by
  have hcomplexType : (optionJson ComplexType.toJson element.complexType).asOption
      (fun part _ => ComplexType.ofJson nested part) = .ok element.complexType := by
    apply asOption_optionJson _ h
    intro type htype
    cases htype
  rw [ofJson, toJson, Element.entries_eq, Json.asRecord_object fields rfl (by decide) (by decide)]
  cases element
  simp [text?_optionJson, asOption_simpleType, hcomplexType, Json.asUInt32_toNat, bound_toInt,
    Json.asBool, ok_bind, pure_eq_ok]

theorem ComplexType.ofJson_of_parts {type : ComplexType}
    (h : ∀ particle ∈ type.content, Particle.ofJson nested particle.toJson = .ok particle) :
    ofJson nested type.toJson = .ok type := by
  have hcontent : (optionJson Particle.toJson type.content).asOption
      (fun part _ => Particle.ofJson nested part) = .ok type.content :=
    asOption_optionJson Particle.toJson_ne_null h
  have hattributes : ((Json.array (type.attributes.map Attribute.toJson)).asList
      fun item _ => Attribute.ofJson nested item) = .ok type.attributes :=
    Json.asList_map fun attr _ => attr.ofJson_toJson nested
  rw [ofJson, toJson, ComplexType.entries_eq, Json.asRecord_object fields rfl (by decide) (by decide)]
  cases type
  simp [text?_optionJson, hcontent, hattributes, Json.asBool, ok_bind, pure_eq_ok]

theorem ParticleKind.find?_name (kind : ParticleKind) :
    (all.find? fun other => other.name == kind.name) = some kind := by
  cases kind with
  | group compositor => cases compositor <;> rfl
  | element => rfl

/-- A particle is an object with its kind in front of fields with the keys `names`. -/
theorem Particle.ofJson_object (kind : ParticleKind) {entries : List (String × Json)}
    (names : List String) (hnames : Entries.keys entries = names)
    (hdistinct : ("kind" :: names).Nodup) :
    ofJson nested (.object (("kind", .string kind.name) :: entries)) =
      unplaced (ofFields kind (.object (("kind", .string kind.name) :: entries))) := by
  have hkeys : (Entries.keys (("kind", Json.string kind.name) :: entries)).Nodup := by
    subst hnames
    exact hdistinct
  rw [ofJson, Json.refuseRepeated_object hkeys, ok_bind, List.lookup_cons_self]
  dsimp only
  rw [Json.asTag_name kind.find?_name, Misfit.within_ok, ok_bind]

theorem Particle.ofJson_element {element : Element}
    (h : Element.ofJson true element.toJson = .ok element) :
    ofJson nested (Particle.element element).toJson = .ok (.element element) := by
  have hnames : Entries.keys element.entries = Element.fields := by
    rw [Element.entries_eq]
    rfl
  have hdistinct : ("kind" :: Element.fields).Nodup := by decide
  have helement : Element.ofJson true
      (.object (("kind", .string ParticleKind.element.name) :: element.entries)) = .ok element := by
    rw [← h, Element.toJson, Element.ofJson, Element.ofJson]
    exact Json.asRecord_ignored Element.fields hnames hdistinct (by decide) fun _ => rfl
  rw [toJson, ofJson_object .element Element.fields hnames hdistinct]
  simp [ofFields, helement, ok_bind, pure_eq_ok]

theorem Particle.ofJson_group {compositor : Compositor} {particles : List Particle}
    {minOccurs : UInt32} {maxOccurs : Int32}
    (h : ∀ particle ∈ particles, ofJson true particle.toJson = .ok particle) :
    ofJson nested (Particle.group compositor particles minOccurs maxOccurs).toJson =
      .ok (.group compositor particles minOccurs maxOccurs) := by
  have hparticles := Json.asList_map h
  rw [toJson, toJsonAll_eq_map,
    ofJson_object (.group compositor) ["particles", "minOccurs", "maxOccurs"] rfl (by decide)]
  simp only [ofFields]
  rw [Json.asRecord_object ["kind", "particles", "minOccurs", "maxOccurs"] rfl (by decide) (by decide)]
  simp [hparticles, Json.asUInt32_toNat, bound_toInt, ok_bind, pure_eq_ok]

end Steps

mutual

theorem Element.ofJson_toJson (nested : Bool) :
    ∀ element : Element, Element.ofJson nested element.toJson = .ok element
  | ⟨_, _, _, none, _, _, _, _, _⟩ => Element.ofJson_of_parts fun type htype => by cases htype
  | ⟨_, _, _, some type, _, _, _, _, _⟩ => Element.ofJson_of_parts fun type htype => by
    cases htype
    exact ComplexType.ofJson_toJson nested type
termination_by structural element => element

theorem ComplexType.ofJson_toJson (nested : Bool) :
    ∀ type : ComplexType, ComplexType.ofJson nested type.toJson = .ok type
  | ⟨_, none, _, _, _⟩ => ComplexType.ofJson_of_parts fun particle hparticle => by cases hparticle
  | ⟨_, some particle, _, _, _⟩ => ComplexType.ofJson_of_parts fun particle hparticle => by
    cases hparticle
    exact Particle.ofJson_toJson nested particle
termination_by structural type => type

theorem Particle.ofJson_toJson (nested : Bool) :
    ∀ particle : Particle, Particle.ofJson nested particle.toJson = .ok particle
  | .element element => Particle.ofJson_element (Element.ofJson_toJson true element)
  | .group _ particles _ _ => Particle.ofJson_group (Particle.ofJson_toJsonAll particles)
termination_by structural particle => particle

theorem Particle.ofJson_toJsonAll : ∀ particles : List Particle,
    ∀ particle ∈ particles, Particle.ofJson true particle.toJson = .ok particle
  | [] => List.forall_mem_nil _
  | particle :: particles => List.forall_mem_cons.mpr
    ⟨Particle.ofJson_toJson true particle, Particle.ofJson_toJsonAll particles⟩
termination_by structural particles => particles

end

/-- A schema is read back from its document. -/
theorem Schema.ofJson_toJson_schema (schema : Schema) : ofJson schema.toJson = .ok schema := by
  have helements : ((Json.array (schema.elements.map Element.toJson)).asList
      fun item _ => Element.ofJson false item) = .ok schema.elements :=
    Json.asList_map fun element _ => element.ofJson_toJson false
  have hcomplexTypes : ((Json.array (schema.complexTypes.map ComplexType.toJson)).asList
      fun item _ => ComplexType.ofJson false item) = .ok schema.complexTypes :=
    Json.asList_map fun type _ => type.ofJson_toJson false
  have hsimpleTypes : ((Json.array (schema.simpleTypes.map SimpleType.toJson)).asList
      fun item _ => SimpleType.ofJson item) = .ok schema.simpleTypes :=
    Json.asList_map fun type _ => type.ofJson_toJson
  rw [ofJson, toJson, Json.asRecord_object fields rfl (by decide) (by decide)]
  simp [text?_optionJson, helements, hcomplexTypes, hsimpleTypes, ok_bind, pure_eq_ok]

end SchemaInfer.Xsd
