import SchemaInfer.Proofs.JsonSchemaExport
import SchemaInfer.Proofs.XsdDeclarations

/-!
# What can be exported

Functions and placeholders have no place in a schema of either notation. One exporter comes upon them while
it writes, and the other looks for them first, with `Ty.nonData?`, so that it comes upon none afterwards
(`Xsd.reason_ne_notData`). The error of the former is the one for the first such part (`failure?_ofType`), so
both name the same one. For data the exporter of XML Schemas can still fail, and does exactly if a name that
it declares is no name in XML (`Xsd.ofType_of_data`).
-/

namespace SchemaInfer

/-! ### The first failure -/

/-- Why a computation fails, if it does. -/
def failure? {ε α : Type} : Except ε α → Option ε
  | .error failure => some failure
  | .ok _ => none

section Failure

variable {ε α β γ : Type}

theorem failure?_eq_some_iff {x : Except ε α} {failure : ε} :
    failure? x = some failure ↔ x = .error failure := by
  cases x with
  | error other => simp [failure?]
  | ok value => simp [failure?]

theorem failure?_map (x : Except ε α) (f : α → β) :
    failure? (x >>= fun a => pure (f a)) = failure? x := by
  cases x with
  | error failure => rfl
  | ok value => rfl

/-- Of two computations in a row, the first one that fails counts. -/
theorem failure?_seq (x : Except ε α) (y : Except ε β) (f : α → β → γ) :
    failure? (x >>= fun a => y >>= fun b => pure (f a b)) = (failure? x).or (failure? y) := by
  cases x with
  | error failure => rfl
  | ok a =>
    cases y with
    | error failure => rfl
    | ok b => rfl

end Failure

/-! ### Parts that are no data -/

namespace Ty

/-- A function or a placeholder. -/
def IsNonData (t : Ty) : Prop :=
  t.isFunction = true ∨ t.isVar = true

/-- What is found stands in the type and is no data. -/
theorem part_of_nonData? {t s : Ty} (h : t.nonData? = some s) : Part s t ∧ s.IsNonData := by
  induction t with
  | string | number | integer | boolean | null | any => cases h
  | array t ih =>
    obtain ⟨hpart, hs⟩ := ih h
    exact ⟨.element hpart, hs⟩
  | object ps isOpen ih =>
    rw [nonData?, nonDataProperty?_eq] at h
    obtain ⟨⟨name, p⟩, hp, hfound⟩ := List.exists_of_findSome?_eq_some h
    obtain ⟨hpart, hs⟩ := ih name p hp hfound
    exact ⟨.property hp hpart, hs⟩
  | union ms ih =>
    rw [nonData?, nonDataMember?_eq] at h
    obtain ⟨m, hm, hfound⟩ := List.exists_of_findSome?_eq_some h
    obtain ⟨hpart, hs⟩ := ih m hm hfound
    exact ⟨.member hm hpart, hs⟩
  | var name =>
    cases h
    exact ⟨.self, Or.inr rfl⟩
  | function ps r _ _ =>
    cases h
    exact ⟨.self, Or.inl rfl⟩

/-- If there is such a part, one is found. -/
theorem nonData?_ne_none_of_part {t s : Ty} (hpart : Part s t) (hs : s.IsNonData) :
    t.nonData? ≠ none := by
  induction hpart with
  | self =>
    rcases hs with hs | hs
    all_goals
      cases s with
      | var name => simp [nonData?]
      | function ps r => simp [nonData?]
      | _ => cases hs
  | element _ ih => exact ih
  | property hp _ ih =>
    rw [nonData?, nonDataProperty?_eq, ne_eq, List.findSome?_eq_none_iff]
    intro hnone
    exact ih (hnone _ hp)
  | member hm _ ih =>
    rw [nonData?, nonDataMember?_eq, ne_eq, List.findSome?_eq_none_iff]
    intro hnone
    exact ih (hnone _ hm)
  | param _ _ _ => simp [nonData?]
  | result _ _ => simp [nonData?]

theorem nonData?_eq_none_iff {t : Ty} : t.nonData? = none ↔ ¬ ∃ s, Part s t ∧ s.IsNonData := by
  constructor
  · rintro hnone ⟨s, hpart, hs⟩
    exact nonData?_ne_none_of_part hpart hs hnone
  · intro hdata
    cases hfound : t.nonData? with
    | none => rfl
    | some s => exact absurd ⟨s, part_of_nonData? hfound⟩ hdata

end Ty

/-! ### JSON Schemas -/

namespace JsonSchema

/-- The error for a part that is no data. -/
def notData (type : Ty) : ExportError where
  type := type
  format := .jsonSchema
  reason := .notData

theorem failure?_ofTypes {ms : List Ty}
    (h : ∀ m ∈ ms, failure? (ofType m) = m.nonData?.map notData) :
    failure? (ofTypes ms) = (Ty.nonDataMember? ms).map notData := by
  induction ms with
  | nil => rfl
  | cons m ms ih =>
    obtain ⟨hm, hms⟩ := List.forall_mem_cons.mp h
    rw [ofTypes, failure?_seq, hm, ih hms, Ty.nonDataMember?]
    cases m.nonData? with
    | none => rfl
    | some s => rfl

theorem failure?_ofProperties {ps : Properties}
    (h : ∀ name p, (name, p) ∈ ps → failure? (ofType p.ty) = p.ty.nonData?.map notData) :
    failure? (ofProperties ps) = (Ty.nonDataProperty? ps).map notData := by
  induction ps with
  | nil => rfl
  | cons entry ps ih =>
    obtain ⟨name, p⟩ := entry
    obtain ⟨hp, hps⟩ := Entries.forall_mem_cons_iff.mp h
    rw [ofProperties, failure?_seq, hp, ih hps, Ty.nonDataProperty?]
    cases p.ty.nonData? with
    | none => rfl
    | some s => rfl

/-- Writing a type fails at the first part that is no data. -/
theorem failure?_ofType (t : Ty) : failure? (ofType t) = t.nonData?.map notData := by
  induction t with
  | string | number | integer | boolean | null | any => rfl
  | array t ih =>
    rw [ofType, failure?_map]
    exact ih
  | object ps isOpen ih =>
    rw [ofType, failure?_map]
    exact failure?_ofProperties ih
  | union ms ih =>
    rw [ofType, failure?_map]
    exact failure?_ofTypes ih
  | var name => rfl
  | function ps r _ _ => rfl

theorem ofType_eq_error_iff {t : Ty} {error : ExportError} :
    ofType t = .error error ↔ ∃ s, t.nonData? = some s ∧ error = notData s := by
  rw [← failure?_eq_some_iff, failure?_ofType, Option.map_eq_some_iff]
  simp only [eq_comm]

end JsonSchema

/-! ### XML Schemas -/

namespace Xsd

theorem ofType_of_nonData? {rootName : String} {t s : Ty} (h : t.nonData? = some s) :
    ofType rootName t = .error ⟨s, .xsd, .notData⟩ := by
  rw [ofType, h]

theorem head?_misnamedAmong (declared : List Declaration) :
    (misnamedAmong declared).head? = (declared.find? fun declaration => !Xml.isName declaration.name).map
      fun declaration => (declaration.name, declaration.type) := by
  rw [misnamedAmong, List.head?_map, List.head?_filter]

/-- For data, the first name that cannot be written is the only reason to fail. -/
theorem ofType_of_data {rootName : String} {t : Ty} {error : ExportError} (h : t.nonData? = none) :
    ofType rootName t = .error error ↔ ∃ declaration,
      (declarations rootName t).find? (fun declaration => !Xml.isName declaration.name) =
        some declaration ∧ error = ⟨declaration.type, .xsd, .invalidName declaration.name⟩ := by
  have hmisnamed := head?_misnamedAmong (declarations rootName t)
  rw [← (root_writes rootName t).misnamed] at hmisnamed
  have hroot : (⟨rootName, rootName, .once, none⟩ : Position) = rootPosition rootName := rfl
  simp only [ofType, h, hroot]
  rw [element_failsByNames h]
  cases hnoted : (element (rootPosition rootName) t).misnamed with
  | nil =>
    rw [hnoted, List.head?_nil, eq_comm, Option.map_eq_none_iff] at hmisnamed
    simp [hmisnamed, pure, Except.pure]
  | cons first others =>
    rw [hnoted, List.head?_cons, eq_comm, Option.map_eq_some_iff] at hmisnamed
    obtain ⟨declaration, hfound, rfl⟩ := hmisnamed
    simp [hfound, invalidName, eq_comm]

theorem reason_ne_notData {t : Ty} (h : t.nonData? = none) (position : Position) :
    ∀ failure ∈ (element position t).failures, failure.reason ≠ .notData := by
  rw [element_failsByNames h]
  intro failure hfailure hreason
  obtain ⟨misnamed, _, rfl⟩ := List.mem_map.mp hfailure
  cases hreason

end Xsd

/-! ### Both -/

/-- Just the types with a function or a placeholder in them have no JSON Schema. They have no XML Schema
either, whatever its root is called, for the same part. The other types have one unless one of the names that
it would declare is no name in XML, and then the error is about the first of these: writing them comes upon
no part that is no data. -/
theorem exporters_agree (t : Ty) (rootName : String) :
    ((∃ error, JsonSchema.ofType t = .error error) ↔ ∃ s, Ty.Part s t ∧ s.IsNonData) ∧
    (∀ error, JsonSchema.ofType t = .error error →
      Ty.Part error.type t ∧ error.type.IsNonData ∧
        Xsd.ofType rootName t = .error ⟨error.type, .xsd, .notData⟩) ∧
    ((¬ ∃ s, Ty.Part s t ∧ s.IsNonData) → ∀ error,
      Xsd.ofType rootName t = .error error ↔ ∃ declaration,
        (Xsd.declarations rootName t).find? (fun declaration => !Xml.isName declaration.name) =
          some declaration ∧ error = ⟨declaration.type, .xsd, .invalidName declaration.name⟩) ∧
    ((¬ ∃ s, Ty.Part s t ∧ s.IsNonData) →
      ∀ position, ∀ failure ∈ (Xsd.element position t).failures, failure.reason ≠ .notData) ∧
    (Xsd.element (Xsd.rootPosition rootName) t).content.declaredNames =
      (Xsd.declarations rootName t).map Xsd.Declaration.name := by
  refine ⟨?_, ?_, ?_, ?_, ?_⟩
  · rw [← not_iff_not, ← Ty.nonData?_eq_none_iff]
    simp [JsonSchema.ofType_eq_error_iff, Option.eq_none_iff_forall_ne_some]
  · intro error herror
    obtain ⟨s, hfound, rfl⟩ := JsonSchema.ofType_eq_error_iff.mp herror
    obtain ⟨hpart, hs⟩ := Ty.part_of_nonData? hfound
    exact ⟨hpart, hs, Xsd.ofType_of_nonData? hfound⟩
  · intro hdata error
    exact Xsd.ofType_of_data (Ty.nonData?_eq_none_iff.mpr hdata)
  · intro hdata position
    exact Xsd.reason_ne_notData (Ty.nonData?_eq_none_iff.mpr hdata) position
  · have hnames := (Xsd.root_writes rootName t).names
    simpa [Xml.declaredNamesOfAll] using hnames

/-- A form whose button has a handler, and one with a blank in the name of an attribute. -/
theorem exporters_agree_of_forms :
    let handler : Ty := .function [.string] .null
    let button : Ty := .array (.object [("label", ⟨.string, true, 1, 1, none⟩),
      ("press", ⟨.union [handler, .null], true, 1, 1, none⟩)] false)
    let field : Ty := .object [("@tab index", ⟨.integer, true, 1, 1, none⟩)] false
    JsonSchema.ofType button = .error ⟨handler, .jsonSchema, .notData⟩ ∧
      Xsd.ofType "my form" button = .error ⟨handler, .xsd, .notData⟩ ∧
      Xsd.ofType "form" field = .error ⟨.integer, .xsd, .invalidName "tab index"⟩ := by
  intro handler button field
  have hbutton : JsonSchema.ofType button = .error ⟨handler, .jsonSchema, .notData⟩ := rfl
  have hfield : ¬ ∃ s, Ty.Part s field ∧ s.IsNonData := Ty.nonData?_eq_none_iff.mp rfl
  have hform : Xml.isName "form" = true := by decide +kernel
  have htab : Xml.isName "tab index" = false := by decide +kernel
  have hdeclared : Xsd.declarations "form" field =
      [⟨"form", field, none⟩, ⟨"tab index", .integer, none⟩] := by
    rfl
  have hname : (Xsd.declarations "form" field).find? (fun declaration => !Xml.isName declaration.name) =
      some ⟨"tab index", .integer, none⟩ := by
    simp [hdeclared, hform, htab]
  refine ⟨hbutton, ?_, ?_⟩
  · exact ((exporters_agree button "my form").2.1 _ hbutton).2.2
  · exact ((exporters_agree field "form").2.2.1 hfield _).mpr ⟨_, hname, rfl⟩

end SchemaInfer
