import SchemaInfer.Proofs.XsdDeclarations

/-!
# What the declarations in an XML Schema determine

The declaration of an element determines the name of the element, whether it can be left out, and whether it
can be repeated. That of an object determines whether it is open, and which elements and attributes it has,
each with its own declaration. The results below read this off the trees that are written, so that equal
trees can be taken apart (`writtenAlike_of_content`, `exists_paired`).
-/

namespace SchemaInfer

namespace Xml

def tag : Xml → String
  | empty tag _ | text tag _ _ | node tag _ _ => tag

def attributes : Xml → List (String × String)
  | empty _ attributes | text _ attributes _ | node _ attributes _ => attributes

end Xml

namespace Xsd

variable {position position' : Position} {path path' name attr : String} {p q : Property Ty}
  {ps qs : Properties} {isOpen isOpen' : Bool} {t u ty : Ty}

/-! ### Declarations of elements -/

theorem typed_injective {type type' : Xml} (h : position.typed type = position'.typed type') :
    position.head = position'.head ∧
      documentation position.description = documentation position'.description ∧ type = type' := by
  obtain ⟨_, hhead, hinner⟩ := Xml.node.inj h
  obtain ⟨hnote, htype⟩ := List.append_inj' hinner rfl
  exact ⟨hhead, hnote, (List.cons.inj htype).1⟩

/-- An element is declared with a type of its own or without one. -/
theorem content_cases (position : Position) (ty : Ty) :
    (hasBody ty = false ∧ (element position ty).content = position.untyped) ∨
      (hasBody ty = true ∧ ∃ type, (element position ty).content = position.typed type) := by
  cases ty with
  | object ps isOpen =>
    refine Or.inr ⟨rfl, ?_⟩
    rw [element]
    cases textOnly? ps isOpen with
    | some text => exact ⟨_, rfl⟩
    | none => exact ⟨_, rfl⟩
  | null | any | union _ | var _ | function _ _ => exact Or.inl ⟨rfl, rfl⟩
  | string | number | integer | boolean | array _ => exact Or.inr ⟨rfl, _, rfl⟩

theorem head_eq (h : (element position t).content = (element position' u).content) :
    position.head = position'.head := by
  rcases content_cases position t with ⟨_, ht⟩ | ⟨_, type, ht⟩
  · rcases content_cases position' u with ⟨_, hu⟩ | ⟨_, type', hu⟩
    · rw [ht, hu] at h
      exact List.append_cancel_right (Xml.empty.inj h).2
    · rw [ht, hu] at h
      cases h
  · rcases content_cases position' u with ⟨_, hu⟩ | ⟨_, type', hu⟩
    · rw [ht, hu] at h
      cases h
    · rw [ht, hu] at h
      exact (typed_injective h).1

/-! ### Occurrences -/

theorem eq_zero_of_toString {n : UInt32} (h : toString n = "0") : n = 0 := by
  have htext : n.toNat.repr = String.ofList ['0'] := h
  rw [Nat.repr_eq_ofList_toDigits] at htext
  have hdigits : Nat.toDigits 10 n.toNat = ['0'] := String.ofList_injective htext
  have hvalue := @Nat.ofDigitChars_ten_toDigits n.toNat
  rw [hdigits] at hvalue
  exact UInt32.toNat_inj.mp hvalue.symm

/-- A number is not written like the lack of a bound. -/
theorem toString_ne_unbounded {n : Int32} (h : 1 < n) : toString n ≠ "unbounded" := by
  intro heq
  have hpositive : 0 ≤ n.toInt := by
    have hlt := Int32.lt_iff_toInt_lt.mp h
    have hone : (1 : Int32).toInt = 1 := by decide
    omega
  have htext : n.toInt.repr = "unbounded" := heq
  rw [Int.repr_eq_if, if_pos hpositive, Nat.repr_eq_ofList_toDigits] at htext
  have hdigits : 'u' ∈ Nat.toDigits 10 n.toInt.toNat := by
    rw [← String.toList_ofList (l := Nat.toDigits 10 n.toInt.toNat), htext]
    decide
  exact absurd (Nat.isDigit_of_mem_toDigits (by decide) (by decide) hdigits) (by decide)

theorem mem_bounds_least (occurs : Occurrence) :
    ("minOccurs", "0") ∈ occurs.bounds ↔ occurs.least = 0 := by
  have hmost : ("minOccurs", "0") ∉ (if occurs.most = 1 then []
      else if occurs.most < 0 then [("maxOccurs", "unbounded")]
      else [("maxOccurs", toString occurs.most)]) := by
    split_ifs <;> simp
  rw [Occurrence.bounds, List.mem_append, or_iff_left hmost]
  constructor
  · intro h
    split at h
    · cases h
    · exact eq_zero_of_toString (Prod.mk.inj (List.mem_singleton.mp h)).2.symm
  · intro h
    rw [h]
    decide

theorem mem_bounds_most (occurs : Occurrence) :
    "maxOccurs" ∈ occurs.bounds.map Prod.fst ↔ occurs.most ≠ 1 := by
  unfold Occurrence.bounds
  split_ifs <;> simp_all

theorem least_ofProperty (p : Property Ty) :
    (Occurrence.ofProperty p).least = 0 ↔ p.isOptional = true := by
  change (if p.isOptional then 0 else if p.minOccurs < 1 then 1 else p.minOccurs) = 0 ↔ _
  constructor
  · intro h
    by_contra hdemanded
    rw [if_neg hdemanded] at h
    split at h
    · cases h
    · rename_i hleast
      rw [h] at hleast
      exact hleast (by decide)
  · intro h
    rw [if_pos h]

theorem most_ofProperty (p : Property Ty) :
    (Occurrence.ofProperty p).most ≠ 1 ↔ p.ty.isArray = true := by
  change (if p.ty.isArray then (if 1 < p.maxOccurs then p.maxOccurs else unbounded) else 1) ≠ 1 ↔ _
  constructor
  · intro h
    by_contra harray
    rw [if_neg harray] at h
    exact h rfl
  · intro h
    rw [if_pos h]
    split
    · rename_i hmost
      intro hone
      rw [hone] at hmost
      exact absurd hmost (by decide)
    · decide

theorem bounds_ofProperty_eq {p q : Property Ty}
    (h : (Occurrence.ofProperty p).bounds = (Occurrence.ofProperty q).bounds) :
    p.isOptional = q.isOptional ∧ p.ty.isArray = q.ty.isArray := by
  constructor
  · rw [Bool.eq_iff_iff, ← least_ofProperty, ← least_ofProperty, ← mem_bounds_least, h,
      mem_bounds_least]
  · rw [Bool.eq_iff_iff, ← most_ofProperty, ← most_ofProperty, ← mem_bounds_most, h, mem_bounds_most]

theorem not_one_lt_of_mem_bounds {occurs : Occurrence}
    (h : ("maxOccurs", "unbounded") ∈ occurs.bounds) : ¬ 1 < occurs.most := by
  intro hmost
  have hleast : ("maxOccurs", "unbounded") ∉
      (if occurs.least = 1 then [] else [("minOccurs", toString occurs.least)]) := by
    split_ifs <;> simp
  rw [Occurrence.bounds, List.mem_append, or_iff_right hleast] at h
  split at h
  · cases h
  · split at h
    · rename_i hnegative
      rw [Int32.lt_iff_toInt_lt] at hmost hnegative
      have hone : (1 : Int32).toInt = 1 := by decide
      have hzero : (0 : Int32).toInt = 0 := by decide
      omega
    · exact toString_ne_unbounded hmost (Prod.mk.inj (List.mem_singleton.mp h)).2.symm

/-! ### Rows of declarations -/

/-- Drafts one after the other. -/
def Draft.row : List (Draft Xml) → Draft (List Xml)
  | [] => return []
  | draft :: drafts => do
    let first ← draft
    let rest ← row drafts
    return first :: rest

theorem content_row (drafts : List (Draft Xml)) :
    (Draft.row drafts).content = drafts.map Draft.content := by
  induction drafts with
  | nil => rfl
  | cons draft drafts ih => simp [Draft.row, ih]

theorem losses_row (drafts : List (Draft Xml)) :
    (Draft.row drafts).losses = drafts.flatMap Draft.losses := by
  induction drafts with
  | nil => rfl
  | cons draft drafts ih => simp [Draft.row, ih]

/-- The draft for a property that is an attribute. -/
def attributeDraft? (path name : String) (p : Property Ty) : Option (Draft Xml) :=
  (attributeName? name).map fun attr => attributeDecl path attr p

/-- The draft for a property that is an element. -/
def elementDraft? (path name : String) (p : Property Ty) : Option (Draft Xml) :=
  if isChild name then some (element (.child path name p) (itemType p.ty)) else none

theorem attributes_eq_row (path : String) (ps : Properties) :
    attributes path ps = .row (ps.filterMap fun entry => attributeDraft? path entry.1 entry.2) := by
  induction ps with
  | nil => rfl
  | cons entry ps ih =>
    obtain ⟨name, p⟩ := entry
    rw [attributes, ih]
    cases hattr : attributeName? name with
    | none => simp [attributeDraft?, hattr]
    | some attr => simp [attributeDraft?, hattr, Draft.row]

theorem elements_eq_row (path : String) (ps : Properties) :
    elements path ps = .row (ps.filterMap fun entry => elementDraft? path entry.1 entry.2) := by
  induction ps with
  | nil => rfl
  | cons entry ps ih =>
    obtain ⟨name, p⟩ := entry
    rw [elements_cons, ih]
    cases hchild : isChild name with
    | false => simp [elementDraft?, hchild]
    | true => simp [elementDraft?, hchild, Draft.row]

/-- If two rows hold the same, each property that is declared in one has its like in the other. -/
theorem exists_of_row_eq {f g : String → Property Ty → Option (Draft Xml)} {draft : Draft Xml}
    (h : (Draft.row (ps.filterMap fun entry => f entry.1 entry.2)).content =
      (Draft.row (qs.filterMap fun entry => g entry.1 entry.2)).content)
    (hq : (name, q) ∈ qs) (hdraft : g name q = some draft) :
    ∃ name' p draft', (name', p) ∈ ps ∧ f name' p = some draft' ∧ draft'.content = draft.content := by
  have hmem : draft.content ∈ (Draft.row (qs.filterMap fun entry => g entry.1 entry.2)).content := by
    rw [content_row]
    exact List.mem_map_of_mem (List.mem_filterMap.mpr ⟨(name, q), hq, hdraft⟩)
  rw [← h, content_row, List.mem_map] at hmem
  obtain ⟨draft', hmem, hcontent⟩ := hmem
  obtain ⟨⟨name', p⟩, hp, hdraft'⟩ := List.mem_filterMap.mp hmem
  exact ⟨name', p, draft', hp, hdraft', hcontent⟩

theorem losses_of_row {f : String → Property Ty → Option (Draft Xml)} {draft : Draft Xml}
    (h : (Draft.row (ps.filterMap fun entry => f entry.1 entry.2)).losses = [])
    (hp : (name, p) ∈ ps) (hdraft : f name p = some draft) : draft.losses = [] := by
  rw [losses_row, List.flatMap_eq_nil_iff] at h
  exact h draft (List.mem_filterMap.mpr ⟨(name, p), hp, hdraft⟩)

/-! ### Attributes -/

theorem content_simpleName (path otherwise : String) (ty : Ty) :
    (simpleName path otherwise ty).content = (simpleName? ty).getD otherwise := by
  unfold simpleName
  cases simpleName? ty with
  | none => rfl
  | some base => rfl

theorem exists_of_losses_simpleName {path otherwise : String}
    (h : (simpleName path otherwise ty).losses = []) : ∃ base, simpleName? ty = some base := by
  unfold simpleName at h
  cases hbase : simpleName? ty with
  | none => simp [hbase, Draft.lose] at h
  | some base => exact ⟨base, rfl⟩

theorem eq_of_simpleName? {base : String} (ht : simpleName? t = some base)
    (hu : simpleName? u = some base) : t = u := by
  cases t <;> cases ht <;> cases u <;> first | rfl | simp [simpleName?] at hu

theorem eq_attributeProperty (h : attributeName? name = some attr) : name = attributeProperty attr := by
  unfold attributeName? at h
  split at h
  · rename_i rest hname
    obtain rfl := Option.some.inj h
    rw [attributeProperty, ← String.toList_inj, hname]
    simp
  · cases h

theorem attributeDecl_head (path attr : String) (p : Property Ty) :
    (attributeDecl path attr p).content.tag = "xs:attribute" ∧
      (attributeDecl path attr p).content.attributes =
        [("name", attr), ("use", if p.isOptional then "optional" else "required"),
          ("type", (simpleName? p.ty).getD "xs:anySimpleType")] := by
  unfold attributeDecl
  cases p.description with
  | none => simp [documentation, content_simpleName, Xml.tag, Xml.attributes]
  | some text => simp [documentation, content_simpleName, Xml.tag, Xml.attributes]

theorem losses_attributeDecl (path attr : String) (p : Property Ty) :
    (attributeDecl path attr p).losses =
      (simpleName (path ++ "/" ++ attributeProperty attr) "xs:anySimpleType" p.ty).losses := by
  unfold attributeDecl
  cases p.description with
  | none => simp [documentation]
  | some text => simp [documentation]

/-! ### Objects -/

/-- The type that is written for an object. -/
def objectType (path : String) (ps : Properties) (isOpen : Bool) : Draft Xml :=
  match textOnly? ps isOpen with
  | some text => textType path text ps
  | none => do
    let children ← elements path ps
    nodeType path children ps isOpen

theorem content_object : (element position (.object ps isOpen)).content =
    position.typed (objectType position.path ps isOpen).content := by
  rw [element, objectType]
  cases textOnly? ps isOpen with
  | some text => rfl
  | none => rfl

theorem losses_object : (element position (.object ps isOpen)).losses =
    (objectType position.path ps isOpen).losses := by
  rw [element, objectType]
  cases textOnly? ps isOpen with
  | some text => simp
  | none => simp

/-- The simple type that text without elements is declared with. -/
def textBase (text : Ty) : String :=
  (simpleName? text).getD "xs:string"

theorem content_textType (path : String) (text : Ty) (ps : Properties) :
    (textType path text ps).content = .node "xs:complexType" []
      [.node "xs:simpleContent" [] [.node "xs:extension" [("base", textBase text)]
        (attributes path ps).content]] := by
  simp [textType, content_simpleName, textBase]

theorem tag_of_mem_attributes {xml : Xml} (h : xml ∈ (attributes path ps).content) :
    xml.tag = "xs:attribute" := by
  rw [attributes_eq_row, content_row, List.mem_map] at h
  obtain ⟨draft, hdraft, rfl⟩ := h
  obtain ⟨⟨name, p⟩, _, hdraft⟩ := List.mem_filterMap.mp hdraft
  obtain ⟨attr, _, rfl⟩ := Option.map_eq_some_iff.mp hdraft
  exact (attributeDecl_head path attr p).1

theorem tag_of_mem_elements {xml : Xml} (h : xml ∈ (elements path ps).content) :
    xml.tag = "xs:element" := by
  rw [elements_eq_row, content_row, List.mem_map] at h
  obtain ⟨draft, hdraft, rfl⟩ := h
  obtain ⟨⟨name, p⟩, _, hdraft⟩ := List.mem_filterMap.mp hdraft
  unfold elementDraft? at hdraft
  split at hdraft
  · obtain rfl := Option.some.inj hdraft
    rcases content_cases (.child path name p) (itemType p.ty) with ⟨_, h⟩ | ⟨_, type, h⟩
    · rw [h]
      rfl
    · rw [h]
      rfl
  · cases hdraft

section Lists

variable {inner inner' attrs attrs' children children' : List Xml}

theorem inner_injective (hattrs : ∀ xml ∈ attrs, xml.tag = "xs:attribute")
    (hattrs' : ∀ xml ∈ attrs', xml.tag = "xs:attribute")
    (h : (if inner.isEmpty then [] else [sequence inner]) ++ attrs =
      (if inner'.isEmpty then [] else [sequence inner']) ++ attrs') :
    inner = inner' ∧ attrs = attrs' := by
  have hsequence : ∀ inner : List Xml, (sequence inner).tag ≠ "xs:attribute" := by
    intro inner
    change "xs:sequence" ≠ "xs:attribute"
    decide
  cases inner with
  | nil =>
    cases inner' with
    | nil => exact ⟨rfl, h⟩
    | cons first rest =>
      change attrs = _ :: attrs' at h
      exact absurd (hattrs _ (h ▸ List.mem_cons_self)) (hsequence _)
  | cons first rest =>
    cases inner' with
    | nil =>
      change _ :: attrs = attrs' at h
      exact absurd (hattrs' _ (h ▸ List.mem_cons_self)) (hsequence _)
    | cons first' rest' =>
      obtain ⟨hsequences, hattrs⟩ := List.cons.inj h
      exact ⟨(Xml.node.inj hsequences).2.2, hattrs⟩

theorem children_injective (hchildren : ∀ xml ∈ children, xml.tag = "xs:element")
    (hchildren' : ∀ xml ∈ children', xml.tag = "xs:element")
    (h : (if isOpen then children ++ [wildcard] else children) =
      if isOpen' then children' ++ [wildcard] else children') :
    isOpen = isOpen' ∧ children = children' := by
  have hwildcard : wildcard.tag ≠ "xs:element" := by decide
  have hmem : ∀ xmls : List Xml, wildcard ∈ xmls ++ [wildcard] :=
    fun xmls => List.mem_append_right _ List.mem_cons_self
  cases isOpen with
  | false =>
    cases isOpen' with
    | false => exact ⟨rfl, h⟩
    | true =>
      change children = children' ++ [wildcard] at h
      exact absurd (hchildren _ (h ▸ hmem _)) hwildcard
  | true =>
    cases isOpen' with
    | false =>
      change children ++ [wildcard] = children' at h
      exact absurd (hchildren' _ (h ▸ hmem _)) hwildcard
    | true => exact ⟨rfl, List.append_cancel_right h⟩

end Lists

/-- Two objects are written with the same type. -/
structure WrittenAlike (path path' : String) (ps qs : Properties) (isOpen isOpen' : Bool) : Prop where
  openness : isOpen = isOpen'
  text : Entries.hasKey textProperty ps = Entries.hasKey textProperty qs
  base : (textOnly? ps isOpen).map textBase = (textOnly? qs isOpen').map textBase
  attributes : (Xsd.attributes path ps).content = (Xsd.attributes path' qs).content
  elements : (Xsd.elements path ps).content = (Xsd.elements path' qs).content

theorem WrittenAlike.symm (h : WrittenAlike path path' ps qs isOpen isOpen') :
    WrittenAlike path' path qs ps isOpen' isOpen :=
  ⟨h.openness.symm, h.text.symm, h.base.symm, h.attributes.symm, h.elements.symm⟩

theorem exists_of_textOnly? {text : Ty} (h : textOnly? ps isOpen = some text) :
    isOpen = false ∧ ∃ p, ps.lookup textProperty = some p ∧ p.ty = text := by
  unfold textOnly? at h
  split_ifs at h with hchild
  simp only [Bool.or_eq_true, not_or, Bool.not_eq_true] at hchild
  exact ⟨hchild.1, Option.map_eq_some_iff.mp h⟩

theorem elements_of_textOnly? {text : Ty} (h : textOnly? ps isOpen = some text) (path : String) :
    elements path ps = pure [] := by
  rw [elements_eq_row, List.filterMap_eq_nil_iff.mpr]
  · rfl
  · rintro ⟨name, p⟩ hp
    simp [elementDraft?, not_isChild h hp]

/-- No type with text only is written like one with elements or attributes. -/
theorem textType_ne_nodeType {text : Ty} {children : List Xml} :
    (textType path text ps).content ≠ (nodeType path' children qs isOpen').content := by
  intro h
  rw [content_textType] at h
  obtain ⟨_, _, hinner⟩ := Xml.node.inj h
  generalize (if isOpen' then children ++ [wildcard] else children) = inner at hinner
  have hmem := List.mem_singleton_self (Xml.node "xs:simpleContent" []
    [.node "xs:extension" [("base", textBase text)] (attributes path ps).content])
  rw [hinner, List.mem_append] at hmem
  rcases hmem with hmem | hmem
  · split at hmem
    · cases hmem
    · have htag : "xs:simpleContent" = "xs:sequence" := (Xml.node.inj (List.mem_singleton.mp hmem)).1
      exact absurd htag (by decide)
  · have htag : "xs:simpleContent" = "xs:attribute" := tag_of_mem_attributes hmem
    exact absurd htag (by decide)

theorem writtenAlike_of_content
    (h : (objectType path ps isOpen).content = (objectType path' qs isOpen').content) :
    WrittenAlike path path' ps qs isOpen isOpen' := by
  unfold objectType at h
  cases htext : textOnly? ps isOpen with
  | some text =>
    cases htext' : textOnly? qs isOpen' with
    | some text' =>
      simp only [htext, htext', content_textType, Xml.node.injEq, List.cons.injEq, Prod.mk.injEq,
        true_and, and_true] at h
      obtain ⟨hopen, p, hp, _⟩ := exists_of_textOnly? htext
      obtain ⟨hopen', q, hq, _⟩ := exists_of_textOnly? htext'
      exact
        { openness := hopen.trans hopen'.symm
          text := by simp [Entries.hasKey, hp, hq]
          base := by simp [htext, htext', h.1]
          attributes := h.2
          elements := by rw [elements_of_textOnly? htext, elements_of_textOnly? htext'] }
    | none =>
      rw [htext, htext'] at h
      exact absurd h textType_ne_nodeType
  | none =>
    cases htext' : textOnly? qs isOpen' with
    | some text' =>
      rw [htext, htext'] at h
      exact absurd h.symm textType_ne_nodeType
    | none =>
      rw [htext, htext'] at h
      obtain ⟨_, hmixed, hinner⟩ := Xml.node.inj h
      obtain ⟨hinner, hattributes⟩ := inner_injective (fun _ => tag_of_mem_attributes)
        (fun _ => tag_of_mem_attributes) hinner
      obtain ⟨hopen, helements⟩ := children_injective (fun _ => tag_of_mem_elements)
        (fun _ => tag_of_mem_elements) hinner
      refine ⟨hopen, ?_, by rw [htext, htext'], hattributes, helements⟩
      cases hps : Entries.hasKey textProperty ps <;> cases hqs : Entries.hasKey textProperty qs <;>
        simp [hps, hqs] at hmixed ⊢

/-! ### Properties that are written alike -/

/-- Two properties with the same name are written alike. -/
def Paired (path path' name : String) (p q : Property Ty) : Prop :=
  name = textProperty ∨
    (isChild name = true ∧ (element (.child path name p) (itemType p.ty)).content =
      (element (.child path' name q) (itemType q.ty)).content) ∨
    ∃ attr, attributeName? name = some attr ∧
      (attributeDecl path attr p).content = (attributeDecl path' attr q).content

theorem name_cases (name : String) :
    name = textProperty ∨ isChild name = true ∨ ∃ attr, attributeName? name = some attr := by
  cases hattr : attributeName? name with
  | some attr => exact Or.inr (Or.inr ⟨attr, rfl⟩)
  | none =>
    by_cases htext : name = textProperty
    · exact Or.inl htext
    · exact Or.inr (Or.inl (by simp [isChild, hattr, htext]))

theorem exists_paired (h : WrittenAlike path path' ps qs isOpen isOpen') (hq : (name, q) ∈ qs) :
    ∃ p, (name, p) ∈ ps ∧ Paired path path' name p q := by
  rcases name_cases name with rfl | hchild | ⟨attr, hattr⟩
  · have hkey := Entries.hasKey_iff.mpr (Entries.mem_keys_of_mem hq)
    rw [← h.text, Entries.hasKey_iff] at hkey
    obtain ⟨p, hp⟩ := Entries.exists_lookup_of_mem_keys hkey
    exact ⟨p, Entries.mem_of_lookup hp, Or.inl rfl⟩
  · have helements := h.elements
    rw [elements_eq_row, elements_eq_row] at helements
    obtain ⟨name', p, draft, hp, hdraft, hcontent⟩ := exists_of_row_eq helements hq (if_pos hchild)
    unfold elementDraft? at hdraft
    split at hdraft
    · obtain rfl := Option.some.inj hdraft
      obtain ⟨hname, _⟩ := List.cons.inj (head_eq hcontent)
      obtain rfl : name' = name := (Prod.mk.inj hname).2
      exact ⟨p, hp, Or.inr (Or.inl ⟨hchild, hcontent⟩)⟩
    · cases hdraft
  · have hattributes := h.attributes
    rw [attributes_eq_row, attributes_eq_row] at hattributes
    obtain ⟨name', p, draft, hp, hdraft, hcontent⟩ :=
      exists_of_row_eq hattributes hq (Option.map_eq_some_iff.mpr ⟨attr, hattr, rfl⟩)
    obtain ⟨attr', hattr', rfl⟩ := Option.map_eq_some_iff.mp hdraft
    have hhead := congrArg Xml.attributes hcontent
    rw [(attributeDecl_head path attr' p).2, (attributeDecl_head path' attr q).2] at hhead
    obtain rfl : attr' = attr := (Prod.mk.inj (List.cons.inj hhead).1).2
    obtain rfl : name' = name :=
      (eq_attributeProperty hattr').trans (eq_attributeProperty hattr).symm
    exact ⟨p, hp, Or.inr (Or.inr ⟨attr', hattr, hcontent⟩)⟩

end Xsd

end SchemaInfer
