import SchemaInfer.Proofs.Exportability

/-!
# What an XML Schema shows of a type

Three things about a type do not show in its schema, and no loss is noted for them. Text beside elements is
declared by `mixed="true"`, whatever its type and whether or not it is demanded. Text without elements is
declared with its type, but always as demanded. And an array that is no property is written like an object
whose one property `item` holds the items.

`shown` is the type that is left: text beside elements is an optional string there, text without elements
is demanded, and an object that is written like an array is one. The schema of a type is that of the type
that it shows, down to each loss that is noted (`ofType_shown`).
-/

namespace SchemaInfer

namespace Xsd

/-! ### The type that is shown -/

/-- Whether the element for a property is declared like the items of an array that is no property. -/
def isItems (name : String) (p : Property Ty) : Bool :=
  name == "item" && p.isOptional && p.ty.isArray && !decide (1 < p.maxOccurs) &&
    (p.description.isNone || !hasBody (itemType p.ty))

/-- The array in place of an object that is written like it. -/
def unwrapped (ty : Ty) : Ty :=
  match ty with
  | .object [(name, p)] false => if isItems name p then p.ty else ty
  | _ => ty

mutual

/-- The type of a property, as its schema shows it. An array that is a property is not written like an
object, nor an object like such an array; the items of an array can be. -/
def shownInside : Ty → Ty
  | .array t => .array (unwrapped (shownInside t))
  | .object ps isOpen => .object (shownProperties (textOnly? ps isOpen).isSome ps) isOpen
  | .string => .string
  | .number => .number
  | .integer => .integer
  | .boolean => .boolean
  | .null => .null
  | .any => .any
  | .union ms => .union ms
  | .var name => .var name
  | .function ps r => .function ps r
termination_by structural ty => ty

/-- The properties of an object, in which text stands alone or beside elements. -/
def shownProperties (alone : Bool) : List (String × Property Ty) → List (String × Property Ty)
  | [] => []
  | (name, p) :: ps =>
    (name,
      if name = textProperty then (if alone then .mandatory p.ty else .optional .string)
      else if isChild name then { p with ty := shownInside p.ty }
      else p) :: shownProperties alone ps
termination_by structural ps => ps

end

/-- The type that the schema of a type shows. -/
def shown (ty : Ty) : Ty :=
  unwrapped (shownInside ty)

/-- One property of an object, as `shownProperties` has it. -/
def shownProperty (alone : Bool) (name : String) (p : Property Ty) : Property Ty :=
  if name = textProperty then (if alone then .mandatory p.ty else .optional .string)
  else if isChild name then { p with ty := shownInside p.ty }
  else p

section Properties

variable {alone isOpen : Bool} {name attr : String} {p q : Property Ty} {ps : Properties} {ty t : Ty}

theorem shownProperties_eq_map (alone : Bool) (ps : Properties) :
    shownProperties alone ps = ps.map fun (name, p) => (name, shownProperty alone name p) := by
  induction ps with
  | nil => rfl
  | cons entry ps ih =>
    obtain ⟨name, p⟩ := entry
    rw [shownProperties, ih]
    rfl

theorem keys_shownProperties : Entries.keys (shownProperties alone ps) = Entries.keys ps := by
  rw [shownProperties_eq_map, Entries.keys, List.map_map]
  rfl

theorem mem_shownProperties : (name, q) ∈ shownProperties alone ps ↔
    ∃ p, (name, p) ∈ ps ∧ q = shownProperty alone name p := by
  rw [shownProperties_eq_map, List.mem_map]
  constructor
  · rintro ⟨⟨name', p⟩, hp, heq⟩
    obtain ⟨rfl, rfl⟩ := Prod.mk.inj heq
    exact ⟨p, hp, rfl⟩
  · rintro ⟨p, hp, rfl⟩
    exact ⟨(name, p), hp, rfl⟩

theorem lookup_shownProperties : (shownProperties alone ps).lookup name =
    (ps.lookup name).map (shownProperty alone name) := by
  rw [shownProperties_eq_map]
  exact Entries.lookup_map (shownProperty alone)

theorem not_isChild_textProperty : isChild textProperty = false := by
  decide

theorem not_isChild_of_attribute (h : attributeName? name = some attr) : isChild name = false := by
  simp [isChild, h]

theorem ne_textProperty_of_attribute (h : attributeName? name = some attr) : name ≠ textProperty := by
  rintro rfl
  cases h

theorem ne_textProperty_of_isChild (h : isChild name = true) : name ≠ textProperty := by
  rintro rfl
  cases not_isChild_textProperty.symm.trans h

theorem shownProperty_text : shownProperty alone textProperty p =
    if alone then .mandatory p.ty else .optional .string :=
  if_pos rfl

theorem shownProperty_child (h : isChild name = true) :
    shownProperty alone name p = { p with ty := shownInside p.ty } := by
  rw [shownProperty, if_neg (ne_textProperty_of_isChild h), if_pos h]

theorem shownProperty_attribute (h : attributeName? name = some attr) :
    shownProperty alone name p = p := by
  rw [shownProperty, if_neg (ne_textProperty_of_attribute h), not_isChild_of_attribute h]
  rfl

/-! ### Arrays and objects -/

theorem isArray_shownInside (ty : Ty) : (shownInside ty).isArray = ty.isArray := by
  cases ty <;> rfl

theorem hasBody_shownInside (ty : Ty) : hasBody (shownInside ty) = hasBody ty := by
  cases ty <;> rfl

theorem exists_of_isItems (h : isItems name p = true) : name = "item" ∧ p.isOptional = true ∧
    (∃ t, p.ty = .array t) ∧ ¬ 1 < p.maxOccurs ∧
      (p.description = none ∨ hasBody (itemType p.ty) = false) := by
  simp only [isItems, Bool.and_eq_true, beq_iff_eq, Bool.not_eq_true', decide_eq_false_iff_not,
    Bool.or_eq_true, Option.isNone_iff_eq_none] at h
  obtain ⟨⟨⟨⟨rfl, hoptional⟩, harray⟩, hmost⟩, hnote⟩ := h
  refine ⟨rfl, hoptional, ?_, hmost, hnote⟩
  cases hty : p.ty with
  | array t => exact ⟨t, rfl⟩
  | _ => simp [hty, Ty.isArray] at harray

theorem unwrapped_cases (ty : Ty) : unwrapped ty = ty ∨
    ∃ p, ty = .object [("item", p)] false ∧ isItems "item" p = true ∧ unwrapped ty = p.ty := by
  unfold unwrapped
  split
  · split
    · rename_i name p hitems
      obtain ⟨rfl, _⟩ := exists_of_isItems hitems
      exact Or.inr ⟨p, rfl, hitems, rfl⟩
    · exact Or.inl rfl
  · exact Or.inl rfl

theorem hasBody_unwrapped (ty : Ty) : hasBody (unwrapped ty) = hasBody ty := by
  rcases unwrapped_cases ty with h | ⟨p, rfl, hitems, h⟩
  · rw [h]
  · obtain ⟨_, _, ⟨t, ht⟩, _⟩ := exists_of_isItems hitems
    rw [h, ht]
    rfl

theorem isItems_shownProperty : isItems name (shownProperty alone name p) = isItems name p := by
  by_cases hname : name = "item"
  · subst hname
    have hchild : isChild "item" = true := by decide
    have hbody : hasBody (itemType (shownInside p.ty)) = hasBody (itemType p.ty) := by
      cases p.ty with
      | array t => exact (hasBody_unwrapped _).trans (hasBody_shownInside t)
      | _ => rfl
    rw [shownProperty_child hchild]
    simp only [isItems, Property.isOptional, isArray_shownInside, hbody]
  · have hne : (name == "item") = false := beq_eq_false_iff_ne.mpr hname
    simp [isItems, hne]

theorem shown_of_unwrapped (h : unwrapped ty = .array t) : shown ty = .array (shown t) := by
  rcases unwrapped_cases ty with heq | ⟨p, rfl, hitems, heq⟩
  · obtain rfl : ty = .array t := heq.symm.trans h
    rfl
  · have hitems' : isItems "item" (shownProperty false "item" p) = true :=
      isItems_shownProperty.trans hitems
    have hchild : isChild "item" = true := by decide
    have hty : p.ty = .array t := heq.symm.trans h
    change (if isItems "item" (shownProperty false "item" p) then
      (shownProperty false "item" p).ty else _) = _
    rw [if_pos hitems', shownProperty_child hchild]
    change shownInside p.ty = _
    rw [hty]
    rfl

theorem shown_of_not_isArray (h : (unwrapped ty).isArray = false) : shown ty = shownInside ty := by
  rcases unwrapped_cases (shownInside ty) with heq | ⟨q, hobject, hitems, _⟩
  · exact heq
  · cases ty with
    | object ps isOpen =>
      obtain ⟨hps, rfl⟩ := Ty.object.inj hobject
      rw [shownProperties_eq_map] at hps
      obtain ⟨⟨name, p⟩, rfl, hentry⟩ := List.map_eq_singleton_iff.mp hps
      obtain ⟨rfl, rfl⟩ := Prod.mk.inj hentry
      rw [isItems_shownProperty] at hitems
      obtain ⟨_, _, ⟨t, ht⟩, _⟩ := exists_of_isItems hitems
      rw [unwrapped, if_pos hitems, ht] at h
      cases h
    | _ => cases hobject

end Properties

/-! ### Drafts that agree -/

namespace Draft

variable {α β : Type}

/-- The same is written and lost, and the same names cannot be written. The types that come with the names
may differ. -/
structure Agree (x y : Draft α) : Prop where
  content : x.content = y.content
  losses : x.losses = y.losses
  names : x.misnamed.map Prod.fst = y.misnamed.map Prod.fst

namespace Agree

variable {x y z : Draft α} {f g : α → Draft β}

theorem refl (x : Draft α) : Agree x x :=
  ⟨rfl, rfl, rfl⟩

theorem trans (h : Agree x y) (h' : Agree y z) : Agree x z :=
  ⟨h.content.trans h'.content, h.losses.trans h'.losses, h.names.trans h'.names⟩

theorem bind (h : Agree x y) (hnext : ∀ a, Agree (f a) (g a)) : Agree (x >>= f) (y >>= g) where
  content := by rw [content_bind, content_bind, h.content, (hnext _).content]
  losses := by rw [losses_bind, losses_bind, h.content, h.losses, (hnext _).losses]
  names := by
    rw [misnamed_bind, misnamed_bind, List.map_append, List.map_append, h.content, h.names,
      (hnext _).names]

theorem naming (name : String) (type other : Ty) :
    Agree (Draft.naming name type) (Draft.naming name other) := by
  unfold Draft.naming
  split
  · exact .refl _
  · exact ⟨rfl, rfl, rfl⟩

end Agree

end Draft

/-! ### Items -/

section Items

variable {p : Property Ty} {t : Ty}

theorem ofProperty_of_isItems (h : isItems "item" p = true) : Occurrence.ofProperty p = .anyNumber := by
  obtain ⟨_, hoptional, ⟨t, ht⟩, hmost, _⟩ := exists_of_isItems h
  simp [Occurrence.ofProperty, Occurrence.anyNumber, hoptional, ht, Ty.isArray, hmost]

theorem element_description {ty : Ty} (h : hasBody ty = false) (position : Position)
    (description : Option String) :
    element { position with description } ty = element position ty := by
  cases ty <;> first | rfl | cases h

theorem element_child_of_isItems (position : Position) (h : isItems "item" p = true)
    (ht : p.ty = .array t) : element (.child position.path "item" p) t = element position.items t := by
  obtain ⟨_, _, _, _, hnote⟩ := exists_of_isItems h
  have hposition : Position.child position.path "item" p =
      { position.items with description := p.description } := by
    simp [Position.child, Position.items, ofProperty_of_isItems h, String.append_assoc]
  rw [hposition]
  rcases hnote with hnote | hbody
  · rw [hnote]
    rfl
  · rw [ht] at hbody
    exact element_description hbody position.items p.description

/-- An object with such a property is written like an array. -/
theorem agree_element_items (position : Position) (h : isItems "item" p = true) (ht : p.ty = .array t) :
    Draft.Agree (element position (.array t)) (element position (.object [("item", p)] false)) := by
  have htext : textOnly? [("item", p)] false = none := rfl
  have hchild : isChild "item" = true := by decide
  have hattributes : attributeName? "item" = none := rfl
  have hmixed : Entries.hasKey textProperty [("item", p)] = false := rfl
  rw [element, element]
  refine .bind (.naming _ _ _) fun _ => ?_
  have hitem := element_child_of_isItems position h ht
  constructor
  all_goals
    simp [htext, elements_cons, hchild, ht, itemType, hitem, elements, nodeType, attributes,
      hattributes, hmixed]

theorem agree_element_unwrapped (position : Position) (ty : Ty) :
    Draft.Agree (element position (unwrapped ty)) (element position ty) := by
  rcases unwrapped_cases ty with h | ⟨p, rfl, hitems, h⟩
  · rw [h]
    exact .refl _
  · obtain ⟨_, _, ⟨t, ht⟩, _⟩ := exists_of_isItems hitems
    rw [h, ht]
    exact agree_element_items position hitems ht

end Items

/-! ### The draft for what is shown -/

section Shown

variable {alone isOpen : Bool} {ps : Properties} {path : String}

theorem attributes_shownProperties : attributes path (shownProperties alone ps) = attributes path ps := by
  induction ps with
  | nil => rfl
  | cons entry ps ih =>
    obtain ⟨name, p⟩ := entry
    rw [shownProperties_eq_map] at ih ⊢
    rw [List.map_cons, attributes, attributes, ih]
    cases hattr : attributeName? name with
    | none => rfl
    | some attr => simp only [shownProperty_attribute hattr]

theorem hasKey_shownProperties {name : String} :
    Entries.hasKey name (shownProperties alone ps) = Entries.hasKey name ps := by
  simp [Entries.hasKey, lookup_shownProperties]

theorem any_isChild_shownProperties :
    ((shownProperties alone ps).any fun (name, _) => isChild name) =
      ps.any fun (name, _) => isChild name := by
  rw [shownProperties_eq_map, List.any_map]
  rfl

theorem textOnly?_shownProperties :
    textOnly? (shownProperties (textOnly? ps isOpen).isSome ps) isOpen = textOnly? ps isOpen := by
  cases htext : textOnly? ps isOpen with
  | none =>
    unfold textOnly? at htext ⊢
    rw [any_isChild_shownProperties]
    split_ifs at htext ⊢
    · rfl
    · simpa [lookup_shownProperties] using htext
  | some text =>
    unfold textOnly? at htext ⊢
    rw [any_isChild_shownProperties]
    split_ifs at htext ⊢
    rw [lookup_shownProperties]
    obtain ⟨p, hp, rfl⟩ := Option.map_eq_some_iff.mp htext
    simp [hp, shownProperty_text, Property.mandatory]

/-- The draft of an element is the same for what the schema shows of its type. -/
def ElementShows (ty : Ty) : Prop :=
  ∀ position : Position, Draft.Agree (element position (shownInside ty)) (element position ty)

theorem ElementShows.shown {ty : Ty} (h : ElementShows ty) (position : Position) :
    Draft.Agree (element position (shown ty)) (element position ty) :=
  (agree_element_unwrapped position _).trans (h position)

theorem child_shown (path name : String) (p : Property Ty) :
    Position.child path name { p with ty := shownInside p.ty } = .child path name p := by
  simp [Position.child, Occurrence.ofProperty, isArray_shownInside, Property.isOptional]

theorem agree_elements_shown (path : String) (alone : Bool)
    (h : ∀ name p, (name, p) ∈ ps → ∀ position : Position,
      Draft.Agree (element position (itemType (shownInside p.ty))) (element position (itemType p.ty))) :
    Draft.Agree (elements path (shownProperties alone ps)) (elements path ps) := by
  induction ps with
  | nil => exact .refl _
  | cons entry ps ih =>
    obtain ⟨name, p⟩ := entry
    obtain ⟨hp, hps⟩ := Entries.forall_mem_cons_iff.mp h
    have hrest := ih hps
    rw [shownProperties_eq_map] at hrest ⊢
    rw [List.map_cons, elements_cons, elements_cons]
    cases hchild : isChild name with
    | false => exact hrest
    | true =>
      rw [shownProperty_child hchild, child_shown]
      refine .bind (hp (.child path name p)) fun first => ?_
      exact .bind hrest fun rest => .refl _

theorem elementShows_object
    (h : ∀ name p, (name, p) ∈ ps → ∀ position : Position,
      Draft.Agree (element position (itemType (shownInside p.ty))) (element position (itemType p.ty))) :
    ElementShows (.object ps isOpen) := by
  intro position
  rw [shownInside, element, element, textOnly?_shownProperties]
  refine .bind (.naming _ _ _) fun _ => ?_
  cases textOnly? ps isOpen with
  | some text =>
    simp only [textType, attributes_shownProperties]
    exact .refl _
  | none =>
    refine .bind (agree_elements_shown position.path _ h) fun children => ?_
    simp only [nodeType, attributes_shownProperties, hasKey_shownProperties]
    exact .refl _

theorem elementShows_array {t : Ty} (h : ElementShows t) : ElementShows (.array t) := by
  intro position
  rw [shownInside, element, element]
  refine .bind (.naming _ _ _) fun _ => ?_
  exact .bind (h.shown position.items) fun item => .refl _

/-- The items come along in the induction, since a property with an array skips one level. -/
theorem elementShows_with_items (ty : Ty) : ElementShows ty ∧ ∀ position : Position,
    Draft.Agree (element position (itemType (shownInside ty))) (element position (itemType ty)) := by
  induction ty with
  | array t ih => exact ⟨elementShows_array ih.1, ih.1.shown⟩
  | object ps isOpen ih =>
    have hobject : ElementShows (.object ps isOpen) :=
      elementShows_object fun name p hp => (ih name p hp).2
    exact ⟨hobject, hobject⟩
  | _ => exact ⟨fun position => .refl _, fun position => .refl _⟩

theorem agree_element_shown (position : Position) (ty : Ty) :
    Draft.Agree (element position (shown ty)) (element position ty) :=
  (elementShows_with_items ty).1.shown position

end Shown

/-! ### Well-formedness -/

theorem everywhere_unwrapped {P : Ty → Prop} {ty : Ty} (h : ty.Everywhere P) :
    (unwrapped ty).Everywhere P := by
  rcases unwrapped_cases ty with heq | ⟨p, rfl, _, heq⟩
  · rwa [heq]
  · rw [heq]
    exact (Ty.Everywhere.object_iff.mp h).2 "item" p List.mem_cons_self

/-- A condition on nodes that asks nothing of arrays and strings, and of objects only something about their
names, goes over to what is shown. -/
theorem everywhere_shown {P : Ty → Prop} {ty : Ty} (hstring : P .string) (harray : ∀ t, P (.array t))
    (hobject : ∀ ps qs isOpen, Entries.keys ps = Entries.keys qs → P (.object ps isOpen) →
      P (.object qs isOpen))
    (h : ty.Everywhere P) : (shown ty).Everywhere P := by
  refine everywhere_unwrapped ?_
  induction ty with
  | array t ih =>
    have ht := ih (Ty.Everywhere.array_iff.mp h).2
    exact Ty.Everywhere.array_iff.mpr ⟨harray _, everywhere_unwrapped ht⟩
  | object ps isOpen ih =>
    obtain ⟨hnode, hps⟩ := Ty.Everywhere.object_iff.mp h
    refine Ty.Everywhere.object_iff.mpr ⟨?_, fun name q hq => ?_⟩
    · exact hobject _ _ _ keys_shownProperties.symm hnode
    · obtain ⟨p, hp, rfl⟩ := mem_shownProperties.mp hq
      unfold shownProperty
      split_ifs
      · exact hps name p hp
      · exact .of_isPrimitive rfl hstring
      · exact ih name p hp (hps name p hp)
      · exact hps name p hp
  | _ => exact h

theorem wellFormed_shown {ty : Ty} (h : ty.WellFormed) : (shown ty).WellFormed := by
  refine everywhere_shown trivial (fun _ => trivial) (fun ps qs isOpen hkeys hnodup => ?_) h
  change (Entries.keys qs).Nodup
  rw [← hkeys]
  exact hnodup

theorem isData_shown {ty : Ty} (h : ty.IsData) : (shown ty).IsData :=
  everywhere_shown ⟨rfl, rfl⟩ (fun _ => ⟨rfl, rfl⟩) (fun _ _ _ _ _ => ⟨rfl, rfl⟩) h

theorem nonData?_eq_none_iff_isData {ty : Ty} : ty.nonData? = none ↔ ty.IsData := by
  rw [Ty.nonData?_eq_none_iff, Ty.IsData, Ty.Everywhere]
  simp [Ty.IsNonData]

/-- A type and the type that its schema shows have the same schema. -/
theorem ofType_shown {rootName text : String} {ty : Ty} {losses : List Loss}
    (h : ofType rootName ty = .ok (text, losses)) :
    ofType rootName (shown ty) = .ok (text, losses) := by
  obtain ⟨hdata, hmisnamed, htext, hlosses⟩ := ofType_eq_ok_iff.mp h
  have hagree := agree_element_shown (rootPosition rootName) ty
  refine ofType_eq_ok_iff.mpr ⟨?_, ?_, ?_, ?_⟩
  · exact nonData?_eq_none_iff_isData.mpr (isData_shown (nonData?_eq_none_iff_isData.mp hdata))
  · have hnames := hagree.names
    rwa [hmisnamed, List.map_nil, List.map_eq_nil_iff] at hnames
  · rw [hagree.content, htext]
  · rw [hagree.losses, hlosses]

end Xsd

end SchemaInfer
