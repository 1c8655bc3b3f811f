import SchemaInfer.Proofs.SubtypePreorder
import SchemaInfer.Proofs.XmlInjective
import SchemaInfer.Proofs.XsdShownTypes
import SchemaInfer.Proofs.XsdWrittenTypes

/-!
# What an XML Schema determines

Two types with the same schema and no loss show types that are subtypes of each other. The text of a schema
determines its tree (`Xml.document_injective`), so this is about trees, and is proved by induction on one of
the types. An array that is no property and an object that is written like it are taken together there:
they are compared by their items.
-/

namespace SchemaInfer.Xsd

variable {position position' : Position} {path path' name attr : String} {p q : Property Ty}
  {ps qs : Properties} {isOpen isOpen' : Bool} {t u ty : Ty}

/-! ### Types that are written without loss -/

/-- A well-formed data type of which nothing is lost at a position. -/
structure Lossless (position : Position) (ty : Ty) : Prop where
  wellFormed : ty.WellFormed
  isData : ty.IsData
  losses : (element position ty).losses = []

theorem everywhere_itemType {P : Ty → Prop} (h : ty.Everywhere P) : (itemType ty).Everywhere P := by
  cases ty with
  | array t => exact (Ty.Everywhere.array_iff.mp h).2
  | _ => exact h

theorem losses_objectType (h : (objectType path ps isOpen).losses = []) :
    (attributes path ps).losses = [] ∧ (elements path ps).losses = [] ∧
      ∀ text, textOnly? ps isOpen = some text → ∃ base, simpleName? text = some base := by
  unfold objectType at h
  cases htext : textOnly? ps isOpen with
  | some text =>
    simp only [htext, textType, Draft.losses_bind, Draft.losses_pure, List.append_nil,
      List.append_eq_nil_iff] at h
    rw [elements_of_textOnly? htext]
    refine ⟨h.2, rfl, fun text' heq => ?_⟩
    obtain rfl := Option.some.inj heq
    exact exists_of_losses_simpleName h.1
  | none =>
    simp only [htext, nodeType, Draft.losses_bind, Draft.losses_pure, List.append_nil,
      List.append_eq_nil_iff] at h
    refine ⟨h.2, h.1, fun text heq => ?_⟩
    cases heq

namespace Lossless

theorem items (h : Lossless position (.array t)) : Lossless position.items t where
  wellFormed := Ty.WellFormed.array_iff.mp h.wellFormed
  isData := (Ty.Everywhere.array_iff.mp h.isData).2
  losses := by simpa [element] using h.losses

theorem objectType (h : Lossless position (.object ps isOpen)) :
    (Xsd.objectType position.path ps isOpen).losses = [] := by
  rw [← losses_object]
  exact h.losses

theorem keys (h : Lossless position (.object ps isOpen)) : (Entries.keys ps).Nodup :=
  (Ty.WellFormed.object_iff.mp h.wellFormed).1

theorem child (h : Lossless position (.object ps isOpen)) (hp : (name, p) ∈ ps)
    (hchild : isChild name = true) : Lossless (.child position.path name p) (itemType p.ty) where
  wellFormed := everywhere_itemType ((Ty.WellFormed.object_iff.mp h.wellFormed).2 name p hp)
  isData := everywhere_itemType ((Ty.Everywhere.object_iff.mp h.isData).2 name p hp)
  losses := by
    obtain ⟨_, helements, _⟩ := losses_objectType h.objectType
    rw [elements_eq_row] at helements
    exact losses_of_row helements hp (if_pos hchild)

theorem simpleAttribute (h : Lossless position (.object ps isOpen)) (hp : (name, p) ∈ ps)
    (hattr : attributeName? name = some attr) : ∃ base, simpleName? p.ty = some base := by
  obtain ⟨hattributes, _, _⟩ := losses_objectType h.objectType
  rw [attributes_eq_row] at hattributes
  have hlosses := losses_of_row hattributes hp (Option.map_eq_some_iff.mpr ⟨attr, hattr, rfl⟩)
  rw [losses_attributeDecl] at hlosses
  exact exists_of_losses_simpleName hlosses

/-- What is written is simple, without a type, an array or an object. -/
theorem kind (h : Lossless position ty) :
    (∃ base, simpleName? ty = some base ∧
      (element position ty).content = position.typed (restriction base)) ∨
    (ty = .any ∧ (element position ty).content = position.untyped) ∨
    (∃ t, ty = .array t) ∨ ∃ ps isOpen, ty = .object ps isOpen := by
  cases ty with
  | string | number | integer | boolean => exact Or.inl ⟨_, rfl, rfl⟩
  | any => exact Or.inr (Or.inl ⟨rfl, rfl⟩)
  | array t => exact Or.inr (Or.inr (Or.inl ⟨t, rfl⟩))
  | object ps isOpen => exact Or.inr (Or.inr (Or.inr ⟨ps, isOpen, rfl⟩))
  | null | union _ => simpa [element, Draft.lose] using h.losses
  | var _ | function _ _ => simpa [Ty.isVar, Ty.isFunction] using h.isData.head

end Lossless

/-! ### What the declaration of an element determines -/

/-- Each of the two types fits the other. -/
def FitBoth (a b : Ty) : Prop :=
  Ty.Fits a b ∧ Ty.Fits b a

theorem fitBoth_array (h : FitBoth t u) : FitBoth (.array t) (.array u) :=
  ⟨.array h.1, .array h.2⟩

theorem fitBoth_of_simpleName? {base : String} (h : simpleName? ty = some base) : FitBoth ty ty := by
  cases ty <;> cases h
  all_goals exact ⟨.primitive rfl, .primitive rfl⟩

/-- The declaration of an element with this type determines what it shows. Where neither type is an array,
so that neither is written like an object, this holds without a look at objects that are written like
arrays. -/
def Determined (t : Ty) : Prop :=
  ∀ (u : Ty) (position position' : Position), Lossless position t → Lossless position' u →
    (element position t).content = (element position' u).content →
      FitBoth (shown t) (shown u) ∧
        (t.isArray = false → u.isArray = false → FitBoth (shownInside t) (shownInside u))

theorem exists_of_isArray (h : ty.isArray = true) : ∃ t, ty = .array t := by
  cases ty with
  | array t => exact ⟨t, rfl⟩
  | _ => cases h

theorem itemType_of_not_isArray (h : ty.isArray = false) : itemType ty = ty := by
  cases ty with
  | array t => cases h
  | _ => rfl

theorem Determined.child (h : Determined (itemType p.ty))
    (hp : Lossless (.child path name p) (itemType p.ty))
    (hq : Lossless (.child path' name q) (itemType q.ty))
    (hcontent : (element (.child path name p) (itemType p.ty)).content =
      (element (.child path' name q) (itemType q.ty)).content) :
    p.isOptional = q.isOptional ∧ FitBoth (shownInside p.ty) (shownInside q.ty) := by
  obtain ⟨_, hbounds⟩ := List.cons.inj (head_eq hcontent)
  obtain ⟨hoptional, harray⟩ := bounds_ofProperty_eq hbounds
  refine ⟨hoptional, ?_⟩
  obtain ⟨hshown, hinside⟩ := h _ _ _ hp hq hcontent
  cases hty : p.ty.isArray with
  | true =>
    obtain ⟨s, hs⟩ := exists_of_isArray hty
    obtain ⟨s', hs'⟩ := exists_of_isArray (harray.symm.trans hty)
    rw [hs, hs'] at hshown ⊢
    exact fitBoth_array hshown
  | false =>
    have hty' : q.ty.isArray = false := harray.symm.trans hty
    rw [itemType_of_not_isArray hty, itemType_of_not_isArray hty'] at hinside
    exact hinside hty hty'

theorem fitBoth_attribute (hp : ∃ base, simpleName? p.ty = some base)
    (hq : ∃ base, simpleName? q.ty = some base)
    (hcontent : (attributeDecl path attr p).content = (attributeDecl path' attr q).content) :
    p.isOptional = q.isOptional ∧ FitBoth p.ty q.ty := by
  obtain ⟨base, hp⟩ := hp
  obtain ⟨base', hq⟩ := hq
  have hhead := congrArg Xml.attributes hcontent
  rw [(attributeDecl_head path attr p).2, (attributeDecl_head path' attr q).2, hp, hq] at hhead
  simp only [Option.getD_some, List.cons.injEq, Prod.mk.injEq, true_and, and_true] at hhead
  obtain ⟨huse, rfl⟩ := hhead
  rw [eq_of_simpleName? hq hp]
  refine ⟨?_, fitBoth_of_simpleName? hp⟩
  cases hoptional : p.isOptional <;> cases hoptional' : q.isOptional <;>
    simp [hoptional, hoptional'] at huse ⊢

theorem fitBoth_text (hps : Lossless position (.object ps isOpen))
    (hqs : Lossless position' (.object qs isOpen'))
    (h : (textOnly? ps isOpen).map textBase = (textOnly? qs isOpen').map textBase)
    (hp : (textProperty, p) ∈ ps) (hq : (textProperty, q) ∈ qs) :
    (shownProperty (textOnly? ps isOpen).isSome textProperty p).isOptional =
        (shownProperty (textOnly? qs isOpen').isSome textProperty q).isOptional ∧
      FitBoth (shownProperty (textOnly? ps isOpen).isSome textProperty p).ty
        (shownProperty (textOnly? qs isOpen').isSome textProperty q).ty := by
  rw [shownProperty_text, shownProperty_text]
  cases htext : textOnly? ps isOpen with
  | none =>
    cases htext' : textOnly? qs isOpen' with
    | none => exact ⟨rfl, .primitive rfl, .primitive rfl⟩
    | some text' => simp [htext, htext'] at h
  | some text =>
    cases htext' : textOnly? qs isOpen' with
    | none => simp [htext, htext'] at h
    | some text' =>
      obtain ⟨_, p', hp', rfl⟩ := exists_of_textOnly? htext
      obtain ⟨_, q', hq', rfl⟩ := exists_of_textOnly? htext'
      obtain rfl := Entries.eq_of_mem hps.keys hp (Entries.mem_of_lookup hp')
      obtain rfl := Entries.eq_of_mem hqs.keys hq (Entries.mem_of_lookup hq')
      obtain ⟨base, hbase⟩ := (losses_objectType hps.objectType).2.2 _ htext
      obtain ⟨base', hbase'⟩ := (losses_objectType hqs.objectType).2.2 _ htext'
      simp only [htext, htext', textBase, hbase, hbase', Option.map_some, Option.getD_some,
        Option.some.injEq] at h
      subst h
      refine ⟨rfl, ?_⟩
      change FitBoth p.ty q.ty
      rw [eq_of_simpleName? hbase' hbase]
      exact fitBoth_of_simpleName? hbase

theorem fitBoth_object (hps : Lossless position (.object ps isOpen))
    (hqs : Lossless position' (.object qs isOpen'))
    (hdetermined : ∀ name p, (name, p) ∈ ps → Determined (itemType p.ty))
    (h : WrittenAlike position.path position'.path ps qs isOpen isOpen') :
    FitBoth (shownInside (.object ps isOpen)) (shownInside (.object qs isOpen')) := by
  have hkeys : ∀ name, name ∈ Entries.keys ps ↔ name ∈ Entries.keys qs := by
    intro name
    constructor
    · intro hname
      obtain ⟨p, hp⟩ := Entries.exists_lookup_of_mem_keys hname
      obtain ⟨q, hq, _⟩ := exists_paired h.symm (Entries.mem_of_lookup hp)
      exact Entries.mem_keys_of_mem hq
    · intro hname
      obtain ⟨q, hq⟩ := Entries.exists_lookup_of_mem_keys hname
      obtain ⟨p, hp, _⟩ := exists_paired h (Entries.mem_of_lookup hq)
      exact Entries.mem_keys_of_mem hp
  obtain rfl := h.openness
  rw [shownInside, shownInside]
  refine Ty.fits_both_object ?_ ?_ fun name shownq hshownq => ?_
  · rw [keys_shownProperties]
    exact hps.keys
  · intro name
    rw [keys_shownProperties, keys_shownProperties]
    exact hkeys name
  · obtain ⟨q, hq, rfl⟩ := mem_shownProperties.mp hshownq
    obtain ⟨p, hp, hpaired⟩ := exists_paired h hq
    refine ⟨_, mem_shownProperties.mpr ⟨p, hp, rfl⟩, ?_⟩
    rcases hpaired with rfl | ⟨hchild, hcontent⟩ | ⟨attr, hattr, hcontent⟩
    · exact fitBoth_text hps hqs h.base hp hq
    · rw [shownProperty_child hchild, shownProperty_child hchild]
      exact (hdetermined name p hp).child (hps.child hp hchild) (hqs.child hq hchild) hcontent
    · rw [shownProperty_attribute hattr, shownProperty_attribute hattr]
      exact fitBoth_attribute (hps.simpleAttribute hp hattr) (hqs.simpleAttribute hq hattr) hcontent

/-! ### Objects that are written like arrays -/

theorem Lossless.unwrapped (h : Lossless position ty) : Lossless position (unwrapped ty) where
  wellFormed := everywhere_unwrapped h.wellFormed
  isData := everywhere_unwrapped h.isData
  losses := (agree_element_unwrapped position ty).losses.trans h.losses

theorem eq_singleton_of_keys {key : String} (hkeys : (Entries.keys ps).Nodup) (hp : (key, p) ∈ ps)
    (hall : ∀ name q, (name, q) ∈ ps → name = key) : ps = [(key, p)] := by
  cases ps with
  | nil => cases hp
  | cons entry rest =>
    obtain ⟨name, first⟩ := entry
    obtain rfl := hall name first List.mem_cons_self
    obtain ⟨hfresh, _⟩ := List.nodup_cons.mp hkeys
    have hrest : rest = [] := by
      refine List.eq_nil_iff_forall_not_mem.mpr ?_
      rintro ⟨other, q⟩ hq
      obtain rfl := hall other q (List.mem_cons_of_mem _ hq)
      exact hfresh (Entries.mem_keys_of_mem hq)
    subst hrest
    rw [List.mem_singleton.mp hp]

/-- A property that is written like the items of an array is written with their occurrences and without
documentation. -/
theorem isItems_of_content
    (h : (element (.child path "item" p) (itemType p.ty)).content = (element position.items t).content) :
    isItems "item" p = true := by
  obtain ⟨_, hbounds⟩ := List.cons.inj (head_eq h)
  change (Occurrence.ofProperty p).bounds = Occurrence.anyNumber.bounds at hbounds
  have hoptional : p.isOptional = true := by
    rw [← least_ofProperty, ← mem_bounds_least, hbounds]
    decide
  have harray : p.ty.isArray = true := by
    rw [← most_ofProperty, ← mem_bounds_most, hbounds]
    decide
  have hmost : ¬ 1 < p.maxOccurs := by
    intro hmost
    have hunbounded : ("maxOccurs", "unbounded") ∈ (Occurrence.ofProperty p).bounds := by
      rw [hbounds]
      decide
    have hnot := not_one_lt_of_mem_bounds hunbounded
    simp [Occurrence.ofProperty, harray, hmost] at hnot
  have hnote : p.description = none ∨ hasBody (itemType p.ty) = false := by
    rcases content_cases (.child path "item" p) (itemType p.ty) with ⟨hbody, _⟩ | ⟨_, type, htyped⟩
    · exact Or.inr hbody
    · rcases content_cases position.items t with ⟨_, huntyped⟩ | ⟨_, type', htyped'⟩
      · rw [htyped, huntyped] at h
        cases h
      · rw [htyped, htyped'] at h
        obtain ⟨_, hdocumentation, _⟩ := typed_injective h
        change documentation p.description = documentation none at hdocumentation
        refine Or.inl ?_
        cases hdescription : p.description with
        | none => rfl
        | some text => simp [hdescription, documentation] at hdocumentation
  rcases hnote with hnote | hnote
  all_goals simp [isItems, hoptional, harray, hmost, hnote]

theorem isArray_unwrapped_of_content (h : Lossless position ty)
    (hcontent : (element position ty).content = (element position' (.array t)).content) :
    (unwrapped ty).isArray = true := by
  rcases h.kind with ⟨base, _, hsimple⟩ | ⟨_, huntyped⟩ | ⟨s, rfl⟩ | ⟨ps, isOpen, rfl⟩
  · rw [hsimple] at hcontent
    obtain ⟨_, _, htype⟩ := typed_injective hcontent
    have htag : "xs:simpleType" = "xs:complexType" := (Xml.node.inj htype).1
    exact absurd htag (by decide)
  · rw [huntyped] at hcontent
    cases hcontent
  · rfl
  · -- The array is written like the object with its items, so two objects are compared.
    have hitems : isItems "item" (Property.optional (.array t)) = true := rfl
    rw [(agree_element_items position' hitems rfl).content, content_object, content_object] at hcontent
    obtain ⟨_, _, htype⟩ := typed_injective hcontent
    have halike := writtenAlike_of_content htype
    obtain ⟨p, hp, hpaired⟩ := exists_paired halike List.mem_cons_self
    have hall : ∀ name q, (name, q) ∈ ps → name = "item" := by
      intro name q hq
      obtain ⟨_, hmem, _⟩ := exists_paired halike.symm hq
      exact (Prod.mk.inj (List.mem_singleton.mp hmem)).1
    obtain rfl := eq_singleton_of_keys h.keys hp hall
    obtain rfl := halike.openness
    have hp : isItems "item" p = true := by
      rcases hpaired with htext | ⟨_, hchild⟩ | ⟨attr, hattr, _⟩
      · exact absurd htext (by decide)
      · have hitem := congrArg Draft.content (element_child_of_isItems position' hitems rfl)
        exact isItems_of_content (hchild.trans hitem)
      · cases hattr
    obtain ⟨_, _, ⟨s, hs⟩, _⟩ := exists_of_isItems hp
    rw [unwrapped, if_pos hp, hs]
    rfl

/-! ### Types -/

theorem content_items_eq {s s' : Ty}
    (h : (element position (.array s)).content = (element position' (.array s')).content) :
    (element position.items s).content = (element position'.items s').content := by
  obtain ⟨_, _, htype⟩ := typed_injective h
  obtain ⟨_, _, hinner⟩ := Xml.node.inj htype
  obtain ⟨_, _, hitem⟩ := Xml.node.inj (List.cons.inj hinner).1
  exact (List.cons.inj hitem).1

theorem not_isArray_of_unwrapped (h : (unwrapped ty).isArray = false) : ty.isArray = false := by
  cases ty with
  | array t => exact h
  | _ => rfl

theorem shownInside_of_simpleName? {base : String} (h : simpleName? ty = some base) :
    shownInside ty = ty := by
  cases ty <;> first | rfl | cases h

theorem tag_objectType : (objectType path ps isOpen).content.tag = "xs:complexType" := by
  unfold objectType
  cases textOnly? ps isOpen with
  | some text => rfl
  | none => rfl

theorem restriction_ne_objectType (base : String) :
    restriction base ≠ (objectType path ps isOpen).content := by
  intro h
  have htag : "xs:simpleType" = (objectType path ps isOpen).content.tag := congrArg Xml.tag h
  rw [tag_objectType] at htag
  exact absurd htag (by decide)

/-- Where neither type is an array, both are of the same kind. -/
theorem fitBoth_shownInside
    (hproperties : ∀ ps isOpen, t = .object ps isOpen →
      ∀ name p, (name, p) ∈ ps → Determined (itemType p.ty))
    (ht : Lossless position t) (hu : Lossless position' u)
    (h : (element position t).content = (element position' u).content)
    (htarray : t.isArray = false) (huarray : u.isArray = false) :
    FitBoth (shownInside t) (shownInside u) := by
  rcases ht.kind with ⟨base, hbase, hsimple⟩ | ⟨rfl, huntyped⟩ | ⟨s, rfl⟩ | ⟨ps, isOpen, rfl⟩
  · rw [hsimple] at h
    rcases hu.kind with ⟨base', hbase', hsimple'⟩ | ⟨_, huntyped'⟩ | ⟨s', rfl⟩ | ⟨qs, isOpen', rfl⟩
    · rw [hsimple'] at h
      obtain ⟨_, _, htype⟩ := typed_injective h
      obtain rfl : base = base' := by simpa [restriction] using htype
      rw [eq_of_simpleName? hbase' hbase, shownInside_of_simpleName? hbase]
      exact fitBoth_of_simpleName? hbase
    · rw [huntyped'] at h
      cases h
    · cases huarray
    · rw [content_object] at h
      exact absurd (typed_injective h).2.2 (restriction_ne_objectType base)
  · rw [huntyped] at h
    rcases hu.kind with ⟨base', _, hsimple'⟩ | ⟨rfl, _⟩ | ⟨s', rfl⟩ | ⟨qs, isOpen', rfl⟩
    · rw [hsimple'] at h
      cases h
    · exact ⟨.any, .any⟩
    · cases huarray
    · rw [content_object] at h
      cases h
  · cases htarray
  · rw [content_object] at h
    rcases hu.kind with ⟨base', _, hsimple'⟩ | ⟨_, huntyped'⟩ | ⟨s', rfl⟩ | ⟨qs, isOpen', rfl⟩
    · rw [hsimple'] at h
      exact absurd (typed_injective h).2.2.symm (restriction_ne_objectType base')
    · rw [huntyped'] at h
      cases h
    · cases huarray
    · rw [content_object] at h
      obtain ⟨_, _, htype⟩ := typed_injective h
      exact fitBoth_object ht hu (hproperties ps isOpen rfl) (writtenAlike_of_content htype)

/-- An object that is written like an array is compared with arrays, by their items. -/
theorem determined_of_parts (hitems : ∀ s, unwrapped t = .array s → Determined s)
    (hproperties : ∀ ps isOpen, t = .object ps isOpen →
      ∀ name p, (name, p) ∈ ps → Determined (itemType p.ty)) : Determined t := by
  intro u position position' ht hu h
  have hinside := fitBoth_shownInside hproperties ht hu h
  refine ⟨?_, hinside⟩
  have htsame := (agree_element_unwrapped position t).content
  have husame := (agree_element_unwrapped position' u).content
  cases htarray : (unwrapped t).isArray with
  | true =>
    obtain ⟨s, hs⟩ := exists_of_isArray htarray
    rw [hs] at htsame
    have huarray := isArray_unwrapped_of_content hu (h.symm.trans htsame.symm)
    obtain ⟨s', hs'⟩ := exists_of_isArray huarray
    rw [hs'] at husame
    have hts := ht.unwrapped
    have hus := hu.unwrapped
    rw [hs] at hts
    rw [hs'] at hus
    rw [shown_of_unwrapped hs, shown_of_unwrapped hs']
    have hcontent := content_items_eq (htsame.trans (h.trans husame.symm))
    exact fitBoth_array (hitems s hs s' _ _ hts.items hus.items hcontent).1
  | false =>
    have huarray : (unwrapped u).isArray = false := by
      refine Bool.eq_false_iff.mpr fun huarray => ?_
      obtain ⟨s', hs'⟩ := exists_of_isArray huarray
      rw [hs'] at husame
      have htarray' := isArray_unwrapped_of_content ht (h.trans husame.symm)
      rw [htarray] at htarray'
      cases htarray'
    rw [shown_of_not_isArray htarray, shown_of_not_isArray huarray]
    exact hinside (not_isArray_of_unwrapped htarray) (not_isArray_of_unwrapped huarray)

theorem determined_of_plain (harray : (unwrapped t).isArray = false)
    (hobject : ∀ ps isOpen, t ≠ .object ps isOpen) : Determined t := by
  refine determined_of_parts (fun s hs => ?_) (fun ps isOpen h => absurd h (hobject ps isOpen))
  rw [hs] at harray
  cases harray

/-- The items come along in the induction, since a property with an array skips one level. -/
theorem determined_with_items (t : Ty) : Determined t ∧ Determined (itemType t) := by
  induction t with
  | array t ih =>
    refine ⟨determined_of_parts (fun s hs => ?_) (fun ps isOpen hobject => ?_), ih.1⟩
    · obtain rfl := Ty.array.inj hs
      exact ih.1
    · cases hobject
  | object ps isOpen ih =>
    have hobject : Determined (.object ps isOpen) := by
      refine determined_of_parts (fun s hs => ?_) (fun qs isOpen' heq name p hp => ?_)
      · rcases unwrapped_cases (.object ps isOpen) with heq | ⟨p, heq, _, hty⟩
        · rw [heq] at hs
          cases hs
        · obtain ⟨rfl, _⟩ := Ty.object.inj heq
          have hitems := (ih "item" p List.mem_cons_self).2
          rw [hs] at hty
          rwa [← hty] at hitems
      · obtain ⟨rfl, _⟩ := Ty.object.inj heq
        exact (ih name p hp).2
    exact ⟨hobject, hobject⟩
  | _ =>
    constructor
    all_goals
      refine determined_of_plain rfl fun ps isOpen h => ?_
      cases h

/-! ### The text of a schema -/

theorem lossless_of_ofType {rootName text : String} (hwf : ty.WellFormed)
    (h : ofType rootName ty = .ok (text, [])) : Lossless (rootPosition rootName) ty := by
  obtain ⟨hdata, _, _, hlosses⟩ := ofType_eq_ok_iff.mp h
  exact ⟨hwf, nonData?_eq_none_iff_isData.mp hdata, hlosses⟩

theorem content_of_ofType {rootName text : String} {losses losses' : List Loss}
    (ht : ofType rootName t = .ok (text, losses)) (hu : ofType rootName u = .ok (text, losses')) :
    (element (rootPosition rootName) t).content = (element (rootPosition rootName) u).content := by
  obtain ⟨_, _, htext, _⟩ := ofType_eq_ok_iff.mp ht
  obtain ⟨_, _, htext', _⟩ := ofType_eq_ok_iff.mp hu
  have hschemas := Xml.document_injective (schema_writes rootName t).regular.1
    (schema_writes rootName u).regular.1 (htext.trans htext'.symm)
  exact (List.cons.inj (Xml.node.inj hschemas).2.2).1

theorem fitBoth_shown_of_ofType {rootName text : String} (ht : t.WellFormed) (hu : u.WellFormed)
    (htext : ofType rootName t = .ok (text, [])) (hutext : ofType rootName u = .ok (text, [])) :
    FitBoth (shown t) (shown u) :=
  ((determined_with_items t).1 u _ _ (lossless_of_ofType ht htext) (lossless_of_ofType hu hutext)
    (content_of_ofType htext hutext)).1

/-- **What a schema without losses does not tell apart.** Two types with the same schema show types that
are subtypes of each other, and the schema is that of what they show too. So the types themselves are
subtypes of each other if each of them and what it shows are. -/
theorem shown_equivalent_of_same_schema {rootName text : String} (ht : t.WellFormed)
    (hu : u.WellFormed) (htext : ofType rootName t = .ok (text, []))
    (hutext : ofType rootName u = .ok (text, [])) :
    ((shown t).WellFormed ∧ ofType rootName (shown t) = .ok (text, [])) ∧
      ((shown t).subtypeOf (shown u) = true ∧ (shown u).subtypeOf (shown t) = true) ∧
      ((t.subtypeOf (shown t) = true ∧ (shown t).subtypeOf t = true) →
        (u.subtypeOf (shown u) = true ∧ (shown u).subtypeOf u = true) →
        t.subtypeOf u = true ∧ u.subtypeOf t = true) := by
  have htshown := wellFormed_shown ht
  have hushown := wellFormed_shown hu
  obtain ⟨hfits, hfits'⟩ := fitBoth_shown_of_ofType ht hu htext hutext
  refine ⟨⟨htshown, ofType_shown htext⟩, ?_, ?_⟩
  · rw [Ty.subtypeOf_iff_fits htshown hushown, Ty.subtypeOf_iff_fits hushown htshown]
    exact ⟨hfits, hfits'⟩
  · rw [Ty.subtypeOf_iff_fits ht htshown, Ty.subtypeOf_iff_fits htshown ht,
      Ty.subtypeOf_iff_fits hu hushown, Ty.subtypeOf_iff_fits hushown hu, Ty.subtypeOf_iff_fits ht hu,
      Ty.subtypeOf_iff_fits hu ht]
    rintro ⟨htforth, htback⟩ ⟨huforth, huback⟩
    exact ⟨htforth.trans (hfits.trans huback), huforth.trans (hfits'.trans htback)⟩

/-- A type whose declarations all have names that can be written has a schema. -/
theorem ofType_of_names (rootName : String) (ty : Ty) (hdata : ty.nonData? = none)
    (hnames : ∀ declaration ∈ declarations rootName ty, Xml.isName declaration.name = true) :
    ofType rootName ty = .ok ((schema (element (rootPosition rootName) ty).content).document,
      (element (rootPosition rootName) ty).losses) := by
  refine ofType_eq_ok_iff.mpr ⟨hdata, ?_, rfl, rfl⟩
  rw [(root_writes rootName ty).misnamed, misnamedAmong, List.map_eq_nil_iff, List.filter_eq_nil_iff]
  intro declaration hdeclaration
  simp [hnames declaration hdeclaration]

/-- Rows that are arrays, and rows that are objects with items. -/
theorem shown_equivalent_of_same_schema_table :
    let t : Ty := .object [("_text", .mandatory .integer), ("@id", .mandatory .string),
      ("row", .mandatory (.array (.array .number)))] false
    let u : Ty := .object [("row", .mandatory (.array (.object
      [("item", .optional (.array .number))] false))), ("_text", .optional .boolean),
      ("@id", .mandatory .string)] false
    (t.WellFormed ∧ u.WellFormed) ∧ ∃ text, ofType "table" t = .ok (text, []) ∧
      ofType "table" u = .ok (text, []) ∧
      ((shown t).WellFormed ∧ ofType "table" (shown t) = .ok (text, [])) ∧
      (shown t).subtypeOf (shown u) = true ∧ (shown u).subtypeOf (shown t) = true := by
  intro t u
  have ht : t.WellFormed := by decide
  have hu : u.WellFormed := by decide
  have htext := ofType_of_names "table" t rfl (by decide +kernel)
  have hutext := ofType_of_names "table" u rfl (by decide +kernel)
  obtain ⟨hshown, hequivalent, _⟩ := shown_equivalent_of_same_schema ht hu htext hutext
  exact ⟨⟨ht, hu⟩, _, htext, hutext, hshown, hequivalent⟩

/-- The type of text beside elements, whether text without elements is demanded, and an array in place of an
object with its items: none of them shows in a schema, and no loss is noted. -/
theorem same_schema_of_different_types :
    let different : List (Ty × Ty) :=
      [(.object [("_text", .mandatory (.union [.integer, .null])), ("a", .mandatory .string)] false,
          .object [("_text", .mandatory .string), ("a", .mandatory .string)] false),
        (.object [("_text", .mandatory .string)] false, .object [("_text", .optional .string)] false),
        (.array .string, .object [("item", .optional (.array .string))] false)]
    ∀ types ∈ different, types.1.WellFormed ∧ types.2.WellFormed ∧
      (∃ text, ofType "root" types.1 = .ok (text, []) ∧ ofType "root" types.2 = .ok (text, [])) ∧
      ¬ (types.1.subtypeOf types.2 = true ∧ types.2.subtypeOf types.1 = true) := by
  intro different
  refine List.forall_mem_cons.mpr ⟨?_, List.forall_mem_cons.mpr ⟨?_, List.forall_mem_singleton.mpr ?_⟩⟩
  all_goals
    refine ⟨by decide, by decide, ?_, by decide +kernel⟩
    exact ⟨_, ofType_of_names "root" _ rfl (by decide +kernel),
      ofType_of_names "root" _ rfl (by decide +kernel)⟩

end SchemaInfer.Xsd
