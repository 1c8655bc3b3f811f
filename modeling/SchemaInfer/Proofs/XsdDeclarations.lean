import SchemaInfer.Proofs.WellFormed
import SchemaInfer.Proofs.XmlMarkup
import SchemaInfer.Xsd.Export

/-!
# The declarations in an XML Schema

`declarations` lists the elements and attributes that the schema of a type declares, in the order of the
document, with the type and the documentation of each. It is read off the type alone. `Writes` says that
XML trees hold just these declarations: they have the names, in this order, the documentation, in this
order, and the names that cannot be written are the ones noted. `root_writes` is the result for the draft
of a schema, and the parts of the draft come first, one lemma for each. In a draft of data nothing fails but
these names (`element_failsByNames`). The last section is about the text, which is a document with the
documentation of the declarations.
-/

namespace SchemaInfer

/-! ### Parts that are no data -/

namespace Ty

theorem nonDataMember?_eq (ms : List Ty) : nonDataMember? ms = ms.findSome? nonData? := by
  induction ms with
  | nil => rfl
  | cons m ms ih =>
    rw [nonDataMember?, List.findSome?_cons, ih]
    cases m.nonData? with
    | none => rfl
    | some s => rfl

theorem nonDataProperty?_eq (ps : Properties) :
    nonDataProperty? ps = ps.findSome? fun entry => entry.2.ty.nonData? := by
  induction ps with
  | nil => rfl
  | cons entry ps ih =>
    rw [nonDataProperty?, List.findSome?_cons, ih]
    cases entry.2.ty.nonData? with
    | none => rfl
    | some s => rfl

end Ty

/-! ### Declarations -/

namespace Xsd

/-- An element or an attribute, with the documentation that its declaration has. -/
structure Declaration where
  name : String
  type : Ty
  note : Option String

/-- Whether an element with this type is declared with a type of its own. -/
def hasBody : Ty → Bool
  | .string | .number | .integer | .boolean | .array _ | .object _ _ => true
  | .null | .any | .union _ | .var _ | .function _ _ => false

/-- The declaration of an element. Without a type of its own there is no place for documentation. -/
def Declaration.ofElement (name : String) (type : Ty) (description : Option String) : Declaration where
  name := name
  type := type
  note := if hasBody type then description else none

/-- The attributes among the properties of an object. -/
def attributesIn : Properties → List Declaration
  | [] => []
  | (name, p) :: ps =>
    match attributeName? name with
    | none => attributesIn ps
    | some attr => ⟨attr, p.ty, p.description⟩ :: attributesIn ps

mutual

/-- What is declared inside of an element with this type. -/
def declarationsIn : Ty → List Declaration
  | .array t => .ofElement "item" t none :: declarationsIn t
  | .object ps _ => elementsIn ps ++ attributesIn ps
  | _ => []
termination_by structural ty => ty

/-- The elements for the properties of an object, with what is declared inside of them. -/
def elementsIn : List (String × Property Ty) → List Declaration
  | [] => []
  | (name, ⟨.array t, _, _, _, description⟩) :: ps =>
    if isChild name then .ofElement name t description :: (declarationsIn t ++ elementsIn ps)
    else elementsIn ps
  | (name, p) :: ps =>
    if isChild name then .ofElement name p.ty p.description :: (declarationsIn p.ty ++ elementsIn ps)
    else elementsIn ps
termination_by structural ps => ps

end

/-- What the schema for a type declares. -/
def declarations (rootName : String) (ty : Ty) : List Declaration :=
  .ofElement rootName ty none :: declarationsIn ty

end Xsd

/-! ### Declarations in trees -/

namespace Xml

/-- The name that a tag declares. -/
def declaredName (tag : String) (attributes : List (String × String)) : List String :=
  if tag = "xs:element" ∨ tag = "xs:attribute" then (attributes.lookup "name").toList else []

mutual

/-- The names of the elements and attributes that a schema declares. -/
def declaredNames : Xml → List String
  | empty tag attributes => declaredName tag attributes
  | text tag attributes _ => declaredName tag attributes
  | node tag attributes children => declaredName tag attributes ++ declaredNamesOfAll children
termination_by structural xml => xml

def declaredNamesOfAll : List Xml → List String
  | [] => []
  | child :: children => child.declaredNames ++ declaredNamesOfAll children
termination_by structural children => children

end

theorem declaredNamesOfAll_append (xmls others : List Xml) :
    declaredNamesOfAll (xmls ++ others) = declaredNamesOfAll xmls ++ declaredNamesOfAll others := by
  induction xmls with
  | nil => rfl
  | cons xml xmls ih => simp [declaredNamesOfAll, ih]

theorem textsInAll_append (leaf : String) (xmls others : List Xml) :
    textsInAll leaf (xmls ++ others) = textsInAll leaf xmls ++ textsInAll leaf others := by
  induction xmls with
  | nil => rfl
  | cons xml xmls ih => simp [textsInAll, ih]

theorem regularAll_append (leaf : String) (xmls others : List Xml) :
    RegularAll leaf (xmls ++ others) ↔ RegularAll leaf xmls ∧ RegularAll leaf others := by
  induction xmls with
  | nil => simp [RegularAll]
  | cons xml xmls ih => simp [RegularAll, ih, and_assoc]

end Xml

namespace Xsd

/-- The tag around documentation. -/
def documentationTag : String := "xs:documentation"

/-- The declarations whose names cannot be written. -/
def misnamedAmong (declared : List Declaration) : List (String × Ty) :=
  (declared.filter fun declaration => !Xml.isName declaration.name).map fun declaration =>
    (declaration.name, declaration.type)

/-- The trees hold these declarations and no others, and the names that cannot be written are noted. -/
structure Writes (xmls : List Xml) (misnamed : List (String × Ty)) (declared : List Declaration) :
    Prop where
  names : Xml.declaredNamesOfAll xmls = declared.map Declaration.name
  notes : Xml.textsInAll documentationTag xmls = declared.filterMap Declaration.note
  regular : Xml.RegularAll documentationTag xmls
  misnamed : misnamed = misnamedAmong declared

section Writes

variable {xmls others : List Xml} {misnamed misnamed' : List (String × Ty)}
  {declared declared' : List Declaration}

theorem writes_nil : Writes [] [] [] :=
  ⟨rfl, rfl, trivial, rfl⟩

theorem Writes.append (h : Writes xmls misnamed declared) (h' : Writes others misnamed' declared') :
    Writes (xmls ++ others) (misnamed ++ misnamed') (declared ++ declared') where
  names := by rw [Xml.declaredNamesOfAll_append, h.names, h'.names, List.map_append]
  notes := by rw [Xml.textsInAll_append, h.notes, h'.notes, List.filterMap_append]
  regular := (Xml.regularAll_append _ _ _).mpr ⟨h.regular, h'.regular⟩
  misnamed := by simp [h.misnamed, h'.misnamed, misnamedAmong]

/-- A tag around declarations that declares nothing itself. -/
theorem Writes.wrap {tag : String} {attributes : List (String × String)}
    (htag : Xml.PlainTag tag attributes) (hleaf : tag ≠ documentationTag)
    (hname : Xml.declaredName tag attributes = []) (h : Writes xmls misnamed declared) :
    Writes [.node tag attributes xmls] misnamed declared where
  names := by simp [Xml.declaredNamesOfAll, Xml.declaredNames, hname, h.names]
  notes := by simp [Xml.textsInAll, Xml.textsIn, h.notes]
  regular := ⟨⟨htag, hleaf, h.regular⟩, trivial⟩
  misnamed := h.misnamed

end Writes

/-! ### Drafts -/

/-- The name that a failure is about, with the type of what was to have it. -/
def misnaming? (failure : ExportError) : Option (String × Ty) :=
  match failure.reason with
  | .invalidName name => some (name, failure.type)
  | .notData => none

namespace Draft

variable {α β : Type}

/-- The names that cannot be written. -/
def misnamed (x : Draft α) : List (String × Ty) :=
  x.failures.filterMap misnaming?

@[simp] theorem content_bind (x : Draft α) (f : α → Draft β) :
    (x >>= f).content = (f x.content).content := rfl

@[simp] theorem misnamed_bind (x : Draft α) (f : α → Draft β) :
    (x >>= f).misnamed = x.misnamed ++ (f x.content).misnamed :=
  List.filterMap_append

@[simp] theorem content_pure (a : α) : (pure a : Draft α).content = a := rfl

@[simp] theorem misnamed_pure (a : α) : (pure a : Draft α).misnamed = [] := rfl

@[simp] theorem losses_bind (x : Draft α) (f : α → Draft β) :
    (x >>= f).losses = x.losses ++ (f x.content).losses := rfl

@[simp] theorem losses_pure (a : α) : (pure a : Draft α).losses = [] := rfl

@[simp] theorem misnamed_lose (path : String) (type : Ty) : (lose path type).misnamed = [] := rfl

@[simp] theorem misnamed_fail_notData (type : Ty) : (fail type .notData).misnamed = [] := rfl

theorem misnamed_naming (declaration : Declaration) :
    (naming declaration.name declaration.type).misnamed = misnamedAmong [declaration] := by
  unfold naming
  by_cases h : Xml.isName declaration.name = true
  · simp [h, misnamedAmong]
  · simp [h, misnamedAmong, misnamed, fail, misnaming?]

@[simp] theorem losses_naming (name : String) (type : Ty) : (naming name type).losses = [] := by
  unfold naming
  split
  · rfl
  · rfl

end Draft

@[simp] theorem misnamed_simpleName (path otherwise : String) (ty : Ty) :
    (simpleName path otherwise ty).misnamed = [] := by
  unfold simpleName
  split
  · rfl
  · rfl

theorem textsInAll_documentation (note : Option String) :
    Xml.textsInAll documentationTag (documentation note) = note.toList := by
  cases note with
  | none => rfl
  | some text => rfl

theorem declaredNamesOfAll_documentation (note : Option String) :
    Xml.declaredNamesOfAll (documentation note) = [] := by
  cases note with
  | none => rfl
  | some text => rfl

theorem regularAll_documentation (note : Option String) :
    Xml.RegularAll documentationTag (documentation note) := by
  cases note with
  | none => trivial
  | some text =>
    have hnote : Xml.PlainTag "xs:annotation" [] := ⟨by decide, List.forall_mem_nil _⟩
    have hdocumentation : Xml.PlainTag documentationTag [] := ⟨by decide, List.forall_mem_nil _⟩
    exact ⟨⟨hnote, by decide, ⟨hdocumentation, rfl⟩, trivial⟩, trivial⟩

section Declare

variable {tag : String} {attributes : List (String × String)} {xmls : List Xml}
  {misnamed : List (String × Ty)} {declared : List Declaration}

theorem plainTag_of_declares (htag : tag = "xs:element" ∨ tag = "xs:attribute")
    (hplain : ∀ name ∈ attributes.map Prod.fst, Xml.PlainName name) (name : String) :
    Xml.PlainTag tag (("name", name) :: attributes) := by
  have hname : Xml.PlainName "name" := by decide
  refine ⟨?_, List.forall_mem_cons.mpr ⟨hname, hplain⟩⟩
  rcases htag with rfl | rfl
  · decide
  · decide

theorem declaredName_of_declares (htag : tag = "xs:element" ∨ tag = "xs:attribute") (name : String) :
    Xml.declaredName tag (("name", name) :: attributes) = [name] := by
  rw [Xml.declaredName, if_pos htag]
  rfl

/-- The declaration of an element or an attribute, with documentation and around others. -/
theorem Writes.declare (declaration : Declaration) (htag : tag = "xs:element" ∨ tag = "xs:attribute")
    (hplain : ∀ name ∈ attributes.map Prod.fst, Xml.PlainName name) (h : Writes xmls misnamed declared) :
    Writes [.node tag (("name", declaration.name) :: attributes)
        (documentation declaration.note ++ xmls)]
      ((Draft.naming declaration.name declaration.type).misnamed ++ misnamed)
      (declaration :: declared) where
  names := by
    simp [Xml.declaredNamesOfAll, Xml.declaredNames, Xml.declaredNamesOfAll_append,
      declaredNamesOfAll_documentation, declaredName_of_declares htag, h.names]
  notes := by
    simp only [Xml.textsInAll, Xml.textsIn, Xml.textsInAll_append, textsInAll_documentation, h.notes,
      List.append_nil]
    cases hnote : declaration.note with
    | none => simp [hnote]
    | some text => simp [hnote]
  regular := by
    refine ⟨⟨plainTag_of_declares htag hplain _, ?_, ?_⟩, trivial⟩
    · rcases htag with rfl | rfl
      · decide
      · decide
    · exact (Xml.regularAll_append _ _ _).mpr ⟨regularAll_documentation _, h.regular⟩
  misnamed := by
    rw [Draft.misnamed_naming, h.misnamed]
    simp [misnamedAmong, ← List.map_append, ← List.filter_append]

/-- The declaration of an element or an attribute that has nothing inside of it. -/
theorem writes_empty (name : String) (type : Ty) (htag : tag = "xs:element" ∨ tag = "xs:attribute")
    (hplain : ∀ name ∈ attributes.map Prod.fst, Xml.PlainName name) :
    Writes [.empty tag (("name", name) :: attributes)] (Draft.naming name type).misnamed
      [⟨name, type, none⟩] where
  names := by
    simp [Xml.declaredNamesOfAll, Xml.declaredNames, declaredName_of_declares htag]
  notes := rfl
  regular := ⟨plainTag_of_declares htag hplain name, trivial⟩
  misnamed := Draft.misnamed_naming ⟨name, type, none⟩

end Declare

/-! ### Attributes -/

theorem attributeDecl_writes (path name : String) (p : Property Ty) :
    Writes [(attributeDecl path name p).content] (attributeDecl path name p).misnamed
      [⟨name, p.ty, p.description⟩] := by
  have hplain : ∀ name ∈ ["use", "type"], Xml.PlainName name := by decide
  rw [attributeDecl]
  cases hdescription : p.description with
  | none =>
    have hempty : ∀ use type, Writes [.empty "xs:attribute" [("name", name), ("use", use), ("type", type)]]
        (Draft.naming name p.ty).misnamed [⟨name, p.ty, none⟩] := by
      intro use type
      apply writes_empty name p.ty (Or.inr rfl)
      exact hplain
    simpa [documentation] using hempty _ _
  | some text =>
    have hnode : ∀ use type, Writes [.node "xs:attribute" [("name", name), ("use", use), ("type", type)]
        (documentation (some text) ++ [])] ((Draft.naming name p.ty).misnamed ++ [])
        [⟨name, p.ty, some text⟩] := by
      intro use type
      apply writes_nil.declare ⟨name, p.ty, some text⟩ (Or.inr rfl)
      exact hplain
    simpa [documentation] using hnode _ _

theorem attributes_writes (path : String) (ps : Properties) :
    Writes (attributes path ps).content (attributes path ps).misnamed (attributesIn ps) := by
  induction ps with
  | nil => exact writes_nil
  | cons entry ps ih =>
    obtain ⟨name, p⟩ := entry
    rw [attributes, attributesIn]
    cases attributeName? name with
    | none => exact ih
    | some attr =>
      have hall := (attributeDecl_writes path attr p).append ih
      simpa using hall

/-! ### Elements -/

theorem plainNames_bounds (occurs : Occurrence) :
    ∀ name ∈ occurs.bounds.map Prod.fst, Xml.PlainName name := by
  intro name hname
  have hplain : ∀ name ∈ ["minOccurs", "maxOccurs"], Xml.PlainName name := by decide
  apply hplain
  unfold Occurrence.bounds at hname
  split_ifs at hname <;> simp_all

theorem untyped_writes (position : Position) (ty : Ty) :
    Writes [position.untyped] (Draft.naming position.name ty).misnamed [⟨position.name, ty, none⟩] := by
  have hplain : ∀ name ∈ (position.occurs.bounds ++ [("type", "xs:anyType")]).map Prod.fst,
      Xml.PlainName name := by
    rw [List.map_append, List.forall_mem_append]
    exact ⟨plainNames_bounds position.occurs, by decide⟩
  exact writes_empty position.name ty (Or.inl rfl) hplain

theorem typed_writes {type : Xml} {misnamed : List (String × Ty)} {declared : List Declaration}
    (position : Position) (ty : Ty) (h : Writes [type] misnamed declared) :
    Writes [position.typed type] ((Draft.naming position.name ty).misnamed ++ misnamed)
      (⟨position.name, ty, position.description⟩ :: declared) :=
  h.declare ⟨position.name, ty, position.description⟩ (Or.inl rfl) (plainNames_bounds position.occurs)

/-- A tag of a schema that declares nothing and has nothing inside of it. -/
theorem writes_single {tag : String} {attributes : List (String × String)}
    (htag : Xml.PlainTag tag attributes) (hname : Xml.declaredName tag attributes = []) :
    Writes [.empty tag attributes] [] [] where
  names := by simp [Xml.declaredNamesOfAll, Xml.declaredNames, hname]
  notes := rfl
  regular := ⟨htag, trivial⟩
  misnamed := rfl

theorem restriction_writes (base : String) : Writes [restriction base] [] [] := by
  have hbase : ∀ name ∈ ["base"], Xml.PlainName name := by decide
  have hrestriction : Writes [.empty "xs:restriction" [("base", base)]] [] [] :=
    writes_single ⟨by decide, hbase⟩ rfl
  exact hrestriction.wrap ⟨by decide, List.forall_mem_nil _⟩ (by decide) rfl

theorem wildcard_writes : Writes [wildcard] [] [] := by
  have hplain : ∀ name ∈ ["minOccurs", "maxOccurs", "processContents"], Xml.PlainName name := by decide
  exact writes_single ⟨by decide, hplain⟩ rfl

section Types

variable {children : List Xml} {misnamed : List (String × Ty)} {declared : List Declaration}

theorem sequence_writes (h : Writes children misnamed declared) :
    Writes [sequence children] misnamed declared :=
  h.wrap ⟨by decide, List.forall_mem_nil _⟩ (by decide) rfl

theorem complexType_writes {attributes : List (String × String)}
    (hplain : ∀ name ∈ attributes.map Prod.fst, Xml.PlainName name)
    (h : Writes children misnamed declared) :
    Writes [.node "xs:complexType" attributes children] misnamed declared :=
  h.wrap ⟨by decide, hplain⟩ (by decide) rfl

theorem textType_writes (path : String) (text : Ty) (ps : Properties) :
    Writes [(textType path text ps).content] (textType path text ps).misnamed (attributesIn ps) := by
  have hbase : ∀ name ∈ ["base"], Xml.PlainName name := by decide
  have hnone : ∀ name ∈ [], Xml.PlainName name := List.forall_mem_nil _
  have htype : ∀ base, Writes [.node "xs:complexType" [] [.node "xs:simpleContent" []
      [.node "xs:extension" [("base", base)] (attributes path ps).content]]]
      (attributes path ps).misnamed (attributesIn ps) := by
    intro base
    refine complexType_writes hnone ?_
    refine Writes.wrap ⟨by decide, hnone⟩ (by decide) rfl ?_
    refine Writes.wrap ⟨by decide, hbase⟩ (by decide) rfl ?_
    exact attributes_writes path ps
  simpa [textType] using htype _

theorem nodeType_writes (path : String) (ps : Properties) (isOpen : Bool)
    (h : Writes children misnamed declared) :
    Writes [(nodeType path children ps isOpen).content]
      (misnamed ++ (nodeType path children ps isOpen).misnamed) (declared ++ attributesIn ps) := by
  have hmixed : ∀ name ∈ (if Entries.hasKey textProperty ps then [("mixed", "true")] else []).map Prod.fst,
      Xml.PlainName name := by
    split
    · decide
    · exact List.forall_mem_nil _
  have hinner : Writes (if isOpen then children ++ [wildcard] else children) misnamed declared := by
    split
    · have hopen := h.append wildcard_writes
      rwa [List.append_nil, List.append_nil] at hopen
    · exact h
  rw [nodeType]
  generalize (if isOpen then children ++ [wildcard] else children) = inner at hinner
  have hbody : Writes (if inner.isEmpty then [] else [sequence inner]) misnamed declared := by
    cases inner with
    | nil => exact hinner
    | cons first rest => exact sequence_writes hinner
  have htype := complexType_writes hmixed (hbody.append (attributes_writes path ps))
  simpa using htype

end Types

/-- A property with an array repeats an element of the type of the items. -/
def itemType : Ty → Ty
  | .array t => t
  | t => t

theorem elements_cons (path name : String) (p : Property Ty) (ps : Properties) :
    elements path ((name, p) :: ps) =
      if isChild name then do
        let first ← element (.child path name p) (itemType p.ty)
        let rest ← elements path ps
        return first :: rest
      else elements path ps := by
  obtain ⟨ty, required, minOccurs, maxOccurs, description⟩ := p
  cases ty <;> rfl

theorem elementsIn_cons (name : String) (p : Property Ty) (ps : Properties) :
    elementsIn ((name, p) :: ps) =
      if isChild name then
        .ofElement name (itemType p.ty) p.description :: (declarationsIn (itemType p.ty) ++ elementsIn ps)
      else elementsIn ps := by
  obtain ⟨ty, required, minOccurs, maxOccurs, description⟩ := p
  cases ty <;> rfl

theorem elementsIn_eq_nil {ps : Properties} (h : ∀ name p, (name, p) ∈ ps → isChild name = false) :
    elementsIn ps = [] := by
  induction ps with
  | nil => rfl
  | cons entry ps ih =>
    obtain ⟨name, p⟩ := entry
    rw [elementsIn_cons, h name p List.mem_cons_self]
    exact ih fun name p hp => h name p (List.mem_cons_of_mem _ hp)

/-- The draft of an element with this type holds the declarations that can be read off the type. -/
def ElementWrites (ty : Ty) : Prop :=
  ∀ position : Position, Writes [(element position ty).content] (element position ty).misnamed
    (.ofElement position.name ty position.description :: declarationsIn ty)

theorem elements_writes (path : String) {ps : Properties}
    (h : ∀ name p, (name, p) ∈ ps → ElementWrites (itemType p.ty)) :
    Writes (elements path ps).content (elements path ps).misnamed (elementsIn ps) := by
  induction ps with
  | nil => exact writes_nil
  | cons entry ps ih =>
    obtain ⟨name, p⟩ := entry
    have hrest := ih fun name p hp => h name p (List.mem_cons_of_mem _ hp)
    rw [elements_cons, elementsIn_cons]
    split
    · have hfirst := h name p List.mem_cons_self (.child path name p)
      have hall := hfirst.append hrest
      simpa [Position.child] using hall
    · exact hrest

theorem elementWrites_array {t : Ty} (h : ElementWrites t) : ElementWrites (.array t) := by
  intro position
  have hitem := sequence_writes (h position.items)
  have hnone : ∀ name ∈ ([] : List (String × String)).map Prod.fst, Xml.PlainName name :=
    List.forall_mem_nil _
  have htyped := typed_writes position (.array t) (complexType_writes hnone hitem)
  simpa [element, declarationsIn, Declaration.ofElement, hasBody, Position.items] using htyped

theorem not_isChild {ps : Properties} {isOpen : Bool} {text : Ty} {name : String} {p : Property Ty}
    (h : textOnly? ps isOpen = some text) (hp : (name, p) ∈ ps) : isChild name = false := by
  unfold textOnly? at h
  split_ifs at h with hchild
  simp only [Bool.or_eq_true, List.any_eq_true, not_or, not_exists, not_and] at hchild
  exact Bool.eq_false_iff.mpr (hchild.2 (name, p) hp)

theorem elementWrites_object {ps : Properties} {isOpen : Bool}
    (h : ∀ name p, (name, p) ∈ ps → ElementWrites (itemType p.ty)) :
    ElementWrites (.object ps isOpen) := by
  intro position
  rw [element, declarationsIn]
  cases htext : textOnly? ps isOpen with
  | some text =>
    have hchildren : elementsIn ps = [] := elementsIn_eq_nil fun name p hp => not_isChild htext hp
    have htyped := typed_writes position (.object ps isOpen) (textType_writes position.path text ps)
    simpa [hchildren, Declaration.ofElement, hasBody] using htyped
  | none =>
    have htype := nodeType_writes position.path ps isOpen (elements_writes position.path h)
    have htyped := typed_writes position (.object ps isOpen) htype
    simpa [Declaration.ofElement, hasBody] using htyped

theorem elementWrites_simple {ty : Ty} {name : String} (hname : simpleName? ty = some name) :
    ElementWrites ty := by
  intro position
  have htyped := typed_writes position ty (restriction_writes name)
  cases ty <;> cases hname
  all_goals simpa [element, declarationsIn, Declaration.ofElement, hasBody] using htyped

theorem elementWrites_untyped {ty : Ty} (hbody : hasBody ty = false) : ElementWrites ty := by
  intro position
  have huntyped := untyped_writes position ty
  cases ty <;> cases hbody
  all_goals simpa [element, declarationsIn, Declaration.ofElement, hasBody] using huntyped

/-- The items come along in the induction, since a property with an array skips one level. -/
theorem elementWrites_with_items (ty : Ty) : ElementWrites ty ∧ ElementWrites (itemType ty) := by
  induction ty with
  | string => exact ⟨elementWrites_simple rfl, elementWrites_simple rfl⟩
  | number => exact ⟨elementWrites_simple rfl, elementWrites_simple rfl⟩
  | integer => exact ⟨elementWrites_simple rfl, elementWrites_simple rfl⟩
  | boolean => exact ⟨elementWrites_simple rfl, elementWrites_simple rfl⟩
  | null => exact ⟨elementWrites_untyped rfl, elementWrites_untyped rfl⟩
  | any => exact ⟨elementWrites_untyped rfl, elementWrites_untyped rfl⟩
  | array t ih => exact ⟨elementWrites_array ih.1, ih.1⟩
  | object ps isOpen ih =>
    have hobject : ElementWrites (.object ps isOpen) :=
      elementWrites_object fun name p hp => (ih name p hp).2
    exact ⟨hobject, hobject⟩
  | union ms ih => exact ⟨elementWrites_untyped rfl, elementWrites_untyped rfl⟩
  | var name => exact ⟨elementWrites_untyped rfl, elementWrites_untyped rfl⟩
  | function ps r ihps ihr => exact ⟨elementWrites_untyped rfl, elementWrites_untyped rfl⟩

/-- The element at the top of the schema for a type. -/
def rootPosition (rootName : String) : Position where
  path := rootName
  name := rootName
  occurs := .once
  description := none

/-- The draft of the schema for a type holds the declarations that can be read off the type. -/
theorem root_writes (rootName : String) (ty : Ty) :
    Writes [(element (rootPosition rootName) ty).content] (element (rootPosition rootName) ty).misnamed
      (declarations rootName ty) :=
  (elementWrites_with_items ty).1 (rootPosition rootName)

/-! ### Drafts of data -/

/-- The error for a name that cannot be written. -/
def invalidName (misnamed : String × Ty) : ExportError where
  type := misnamed.2
  format := .xsd
  reason := .invalidName misnamed.1

namespace Draft

variable {α β : Type} {x : Draft α} {f : α → Draft β}

/-- Nothing fails but names. -/
def FailsByNames (x : Draft α) : Prop :=
  x.failures = x.misnamed.map invalidName

namespace FailsByNames

theorem pure (a : α) : (Pure.pure a : Draft α).FailsByNames := rfl

theorem bind (hx : x.FailsByNames) (hf : ∀ a, (f a).FailsByNames) : (x >>= f).FailsByNames := by
  have hfailures : (x >>= f).failures = x.failures ++ (f x.content).failures := rfl
  rw [FailsByNames, hfailures, hx, hf, misnamed_bind, List.map_append]

theorem lose (path : String) (type : Ty) : (Draft.lose path type).FailsByNames := rfl

theorem naming (name : String) (type : Ty) : (Draft.naming name type).FailsByNames := by
  unfold Draft.naming
  split
  · rfl
  · rfl

end FailsByNames

end Draft

theorem simpleName_failsByNames (path otherwise : String) (ty : Ty) :
    (simpleName path otherwise ty).FailsByNames := by
  unfold simpleName
  split
  · rfl
  · rfl

theorem attributes_failsByNames (path : String) (ps : Properties) : (attributes path ps).FailsByNames := by
  induction ps with
  | nil => rfl
  | cons entry ps ih =>
    obtain ⟨name, p⟩ := entry
    rw [attributes]
    cases attributeName? name with
    | none => exact ih
    | some attr =>
      refine .bind ?_ fun first => .bind ih fun rest => .pure _
      refine .bind (.naming _ _) fun _ => .bind (simpleName_failsByNames _ _ _) fun type => ?_
      dsimp only
      split
      · exact .pure _
      · exact .pure _

theorem elements_failsByNames (path : String) {ps : Properties}
    (h : ∀ name p, (name, p) ∈ ps → ∀ position, (element position (itemType p.ty)).FailsByNames) :
    (elements path ps).FailsByNames := by
  induction ps with
  | nil => rfl
  | cons entry ps ih =>
    obtain ⟨name, p⟩ := entry
    obtain ⟨hp, hps⟩ := Entries.forall_mem_cons_iff.mp h
    rw [elements_cons]
    split
    · exact .bind (hp _) fun first => .bind (ih hps) fun rest => .pure _
    · exact ih hps

theorem element_failsByNames_object {ps : Properties} {isOpen : Bool}
    (h : ∀ name p, (name, p) ∈ ps → ∀ position, (element position (itemType p.ty)).FailsByNames)
    (position : Position) : (element position (.object ps isOpen)).FailsByNames := by
  rw [element]
  refine .bind (.naming _ _) fun _ => ?_
  cases textOnly? ps isOpen with
  | some text =>
    refine .bind ?_ fun type => .pure _
    exact .bind (simpleName_failsByNames _ _ _) fun base =>
      .bind (attributes_failsByNames _ ps) fun attrs => .pure _
  | none =>
    refine .bind (elements_failsByNames _ h) fun children => .bind ?_ fun type => .pure _
    exact .bind (attributes_failsByNames _ ps) fun attrs => .pure _

theorem element_failsByNames_with_items {ty : Ty} (hdata : ty.nonData? = none) :
    (∀ position, (element position ty).FailsByNames) ∧
      ∀ position, (element position (itemType ty)).FailsByNames := by
  induction ty with
  | string | number | integer | boolean | any =>
    constructor <;> exact fun _ => .bind (.naming _ _) fun _ => .pure _
  | null | union =>
    constructor <;> exact fun _ => .bind (.naming _ _) fun _ => .bind (.lose _ _) fun _ => .pure _
  | array t ih =>
    obtain ⟨hitem, _⟩ := ih hdata
    refine ⟨fun position => ?_, hitem⟩
    exact .bind (.naming _ _) fun _ => .bind (hitem _) fun item => .pure _
  | object ps isOpen ih =>
    rw [Ty.nonData?, Ty.nonDataProperty?_eq, List.findSome?_eq_none_iff] at hdata
    have hobject : ∀ position, (element position (.object ps isOpen)).FailsByNames :=
      element_failsByNames_object fun name p hp => (ih name p hp (hdata _ hp)).2
    exact ⟨hobject, hobject⟩
  | var name => cases hdata
  | function params result => cases hdata

/-- In data there is nothing that fails but names. -/
theorem element_failsByNames {ty : Ty} (hdata : ty.nonData? = none) (position : Position) :
    (element position ty).FailsByNames :=
  (element_failsByNames_with_items hdata).1 position

/-! ### The text of a schema -/

theorem ofType_eq_ok_iff {rootName text : String} {ty : Ty} {losses : List Loss} :
    ofType rootName ty = .ok (text, losses) ↔ ty.nonData? = none ∧
      (element (rootPosition rootName) ty).misnamed = [] ∧
      (schema (element (rootPosition rootName) ty).content).document = text ∧
      (element (rootPosition rootName) ty).losses = losses := by
  have hroot : (⟨rootName, rootName, .once, none⟩ : Position) = rootPosition rootName := rfl
  simp only [ofType, hroot]
  cases hdata : ty.nonData? with
  | some part => simp
  | none =>
    rw [element_failsByNames hdata]
    cases (element (rootPosition rootName) ty).misnamed with
    | nil => simp [pure, Except.pure]
    | cons first others => simp

theorem schema_writes (rootName : String) (ty : Ty) :
    Writes [schema (element (rootPosition rootName) ty).content]
      (element (rootPosition rootName) ty).misnamed (declarations rootName ty) := by
  have hplain : ∀ name ∈ ["xmlns:xs", "elementFormDefault"], Xml.PlainName name := by decide
  exact (root_writes rootName ty).wrap ⟨by decide, hplain⟩ (by decide) rfl

/-- The text of a schema is a document with `xs:schema` at the top. The documentation in it, with characters
put for entities, is that of the declarations, in order. -/
theorem isDocument_of_ofType {rootName text : String} {ty : Ty} {losses : List Loss}
    (h : ofType rootName ty = .ok (text, losses)) :
    ∃ found, Xml.IsDocument "xs:schema" text found ∧
      (Xml.textsOf documentationTag.toList found).map Xml.decode =
        ((declarations rootName ty).filterMap Declaration.note).map fun note => some note.toList := by
  have hwrites := schema_writes rootName ty
  have hregular := hwrites.regular.1
  obtain ⟨_, _, rfl, _⟩ := ofType_eq_ok_iff.mp h
  refine ⟨_, Xml.isDocument_node hregular, ?_⟩
  have htexts := Xml.textsOf_tokens [.text ['\n']] 0 _ hregular
  have hnotes : (schema (element (rootPosition rootName) ty).content).textsIn documentationTag =
      (declarations rootName ty).filterMap Declaration.note := by
    have hall := hwrites.notes
    simpa only [Xml.textsInAll, List.append_nil] using hall
  rw [schema] at htexts hnotes
  rw [htexts, hnotes]
  simp [Xml.textsOf, Xml.decode_escape]

/-- Brackets, quotes and ampersands in a description. -/
theorem isDocument_of_ofType_price :
    let price : Ty := .object [("amount", ⟨.number, true, 1, 1, some "0 < \"amount\" & more"⟩)] false
    ∃ text losses, ofType "price" price = .ok (text, losses) ∧
      ∃ found, Xml.IsDocument "xs:schema" text found ∧
        (Xml.textsOf documentationTag.toList found).map Xml.decode =
          [some "0 < \"amount\" & more".toList] := by
  intro price
  have hnames : Xml.isName "price" = true ∧ Xml.isName "amount" = true := by decide +kernel
  have hdeclared : declarations "price" price =
      [⟨"price", price, none⟩, ⟨"amount", .number, some "0 < \"amount\" & more"⟩] := rfl
  have hmisnamed : (element (rootPosition "price") price).misnamed = [] := by
    rw [(root_writes "price" price).misnamed, hdeclared]
    simp [misnamedAmong, hnames]
  have htext := ofType_eq_ok_iff.mpr ⟨rfl, hmisnamed, rfl, rfl⟩
  obtain ⟨found, hdocument, hnotes⟩ := isDocument_of_ofType htext
  rw [hdeclared] at hnotes
  exact ⟨_, _, htext, found, hdocument, hnotes⟩

end Xsd

end SchemaInfer
