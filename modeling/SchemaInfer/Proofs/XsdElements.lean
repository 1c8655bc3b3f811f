import SchemaInfer.Proofs.JoinLeastUpperBound
import SchemaInfer.Proofs.XsdOccurrences

/-!
# The elements of imported types

Importing a complex type adds the elements of its content one after the other, and an element whose name
is there already widens the property that it finds. So the type of one occurrence only ever grows
(`Grows`), and an element that is covered once stays covered, whatever comes later. `Adds` says this of a
piece of content; it is shown for a single element, and follows for groups because growing is transitive.
Whether a property is demanded is read off its lower bound, which is the sum of those of its elements.
-/

namespace SchemaInfer.Xsd

variable {x name : String} {outer : Multiplicity} {element : Element} {lowers : List UInt32}
  {p q : Property Ty} {ps : Properties} {r : Resolver (Except ImportError)}

/-! ### Elements and their groups -/

/-- The element stands in a particle, inside of groups with these lower bounds, the outermost first. -/
inductive Particle.Contains (element : Element) : List UInt32 → Particle → Prop
  | here : Contains element [] (.element element)
  | inside {lowers : List UInt32} {compositor : Compositor} {particles : List Particle}
      {particle : Particle} {minOccurs : UInt32} {maxOccurs : Int32} (hmem : particle ∈ particles)
      (h : Contains element lowers particle) :
      Contains element (minOccurs :: lowers) (.group compositor particles minOccurs maxOccurs)

/-- The element stands in the content of a complex type. -/
def ComplexType.Contains (type : ComplexType) (element : Element) (lowers : List UInt32) : Prop :=
  ∃ particle, type.content = some particle ∧ particle.Contains element lowers

namespace Particle

theorem contains_element_iff {other : Element} :
    (Particle.element other).Contains element lowers ↔ element = other ∧ lowers = [] := by
  constructor
  · intro h
    cases h
    exact ⟨rfl, rfl⟩
  · rintro ⟨rfl, rfl⟩
    exact .here

theorem contains_group_iff {compositor : Compositor} {particles : List Particle} {minOccurs : UInt32}
    {maxOccurs : Int32} :
    (Particle.group compositor particles minOccurs maxOccurs).Contains element lowers ↔
      ∃ particle ∈ particles, ∃ inner, particle.Contains element inner ∧ lowers = minOccurs :: inner := by
  constructor
  · intro h
    cases h with
    | inside hmem h => exact ⟨_, hmem, _, h, rfl⟩
  · rintro ⟨particle, hmem, inner, h, rfl⟩
    exact .inside hmem h

theorem exists_in_group_iff {compositor : Compositor} {particles : List Particle} {minOccurs : UInt32}
    {maxOccurs : Int32} (P : Bool → Element → Prop) :
    (∃ particle ∈ particles, ∃ element lowers, particle.Contains element lowers ∧
        element.label? = some x ∧
        P ((outer.within minOccurs maxOccurs).optional || lowers.any (· == 0)) element) ↔
      ∃ element lowers, (group compositor particles minOccurs maxOccurs).Contains element lowers ∧
        element.label? = some x ∧ P (outer.optional || lowers.any (· == 0)) element := by
  simp only [Multiplicity.within, Bool.or_assoc]
  constructor
  · rintro ⟨particle, hmem, element, lowers, h, hlabel, hP⟩
    exact ⟨element, _, .inside hmem h, hlabel, hP⟩
  · rintro ⟨element, lowers, h, hlabel, hP⟩
    obtain ⟨particle, hmem, inner, hinner, rfl⟩ := contains_group_iff.mp h
    exact ⟨particle, hmem, element, inner, hinner, hlabel, hP⟩

end Particle

mutual

/-- The elements that importing comes to are the elements of the content, and an element may be left out
with its groups if one of them may. -/
theorem Particle.exists_leaf_iff (x : String) (P : Bool → Element → Prop) (outer : Multiplicity) :
    ∀ particle, Particle.choiceFree particle = true →
      ((∃ leaf ∈ particle.leaves x outer, P leaf.1.optional leaf.2) ↔
        ∃ element lowers, particle.Contains element lowers ∧ element.label? = some x ∧
          P (outer.optional || lowers.any (· == 0)) element)
  | .element element, _ => by
    simp only [Particle.contains_element_iff, Particle.leaves]
    by_cases hlabel : element.label? = some x
    · simp [hlabel]
    · simp [hlabel]
  | .group .sequence particles _ _, hfree => by
    rw [Particle.leaves]
    · rw [← Particle.exists_in_group_iff]
      exact exists_leafOfAll_iff x P _ particles hfree
    · simp
  | .group .all particles _ _, hfree => by
    rw [Particle.leaves]
    · rw [← Particle.exists_in_group_iff]
      exact exists_leafOfAll_iff x P _ particles hfree
    · simp
  | .group .choice _ _ _, hfree => by cases hfree
termination_by structural particle => particle

theorem exists_leafOfAll_iff (x : String) (P : Bool → Element → Prop) (outer : Multiplicity) :
    ∀ particles, choiceFreeAll particles = true →
      ((∃ leaf ∈ leavesOfAll x outer particles, P leaf.1.optional leaf.2) ↔
        ∃ particle ∈ particles, ∃ element lowers, particle.Contains element lowers ∧
          element.label? = some x ∧ P (outer.optional || lowers.any (· == 0)) element)
  | [], _ => by simp [leavesOfAll]
  | first :: rest, hfree => by
    obtain ⟨hfirst, hrest⟩ := Bool.and_eq_true_iff.mp hfree
    have hleft := first.exists_leaf_iff x P outer hfirst
    have hright := exists_leafOfAll_iff x P outer rest hrest
    simp only [leavesOfAll, List.mem_append, or_and_right, exists_or, hleft, hright, List.exists_mem_cons_iff]
termination_by structural particles => particles

end

/-- The elements with a name in the content of a complex type. -/
def ComplexType.leaves (x : String) (type : ComplexType) : List (Multiplicity × Element) :=
  match type.content with
  | none => []
  | some particle => particle.leaves x .once

theorem ComplexType.exists_leaf_iff {type : ComplexType} (P : Bool → Element → Prop)
    (hfree : ∀ particle, type.content = some particle → particle.choiceFree = true) :
    (∃ leaf ∈ type.leaves x, P leaf.1.optional leaf.2) ↔
      ∃ element lowers, type.Contains element lowers ∧ element.label? = some x ∧
        P (lowers.any (· == 0)) element := by
  unfold ComplexType.leaves ComplexType.Contains
  cases hcontent : type.content with
  | none => simp
  | some particle =>
    simpa [Multiplicity.once] using particle.exists_leaf_iff x P .once (hfree particle hcontent)

/-! ### The type of one occurrence -/

theorem occurrenceType_of_single (h : p.isRepeated = false) : occurrenceType p = p.ty := by
  unfold occurrenceType
  rw [h]
  split
  · rename_i htrue
    cases htrue
  · rfl

theorem occurrenceType_of_array {t : Ty} (hty : p.ty = .array t) (h : p.isRepeated = true) :
    occurrenceType p = t := by
  unfold occurrenceType
  rw [hty, h]

/-- Groups that repeat make an array of a single occurrence, and leave a repeated one as it is. -/
theorem occurrenceType_apply : occurrenceType (outer.apply p) = occurrenceType p := by
  have hrepeated : ∀ q : Property Ty, q.ty = p.ty → q.isRepeated = p.isRepeated →
      occurrenceType (if outer.repeated && !q.isRepeated then
        { q with ty := .array q.ty, maxOccurs := unbounded } else q) = occurrenceType p := by
    intro q hty hsame
    split
    · rename_i hcondition
      have hsingle : q.isRepeated = false := by simpa using (Bool.and_eq_true_iff.mp hcondition).2
      rw [occurrenceType_of_array rfl rfl, occurrenceType_of_single (hsame ▸ hsingle), hty]
    · unfold occurrenceType
      rw [hty, hsame]
  unfold Multiplicity.apply
  cases outer.optional with
  | true => exact hrepeated { p with required := false, minOccurs := 0 } rfl rfl
  | false => exact hrepeated p rfl rfl

/-- A property is required exactly if its lower bound says so. -/
def RequiredByBound (p : Property Ty) : Prop :=
  p.required = true ↔ p.minOccurs ≠ 0

theorem RequiredByBound.isOptional_eq_false_iff (h : RequiredByBound p) :
    p.isOptional = false ↔ p.minOccurs ≠ 0 := by
  unfold RequiredByBound at h
  unfold Property.isOptional
  simp [h]

theorem required_apply : (outer.apply p).required = (!outer.optional && p.required) := by
  unfold Multiplicity.apply
  dsimp only
  split_ifs <;> simp_all

theorem RequiredByBound.apply (h : RequiredByBound p) : RequiredByBound (outer.apply p) := by
  unfold RequiredByBound at h ⊢
  rw [required_apply, minOccurs_apply]
  by_cases houter : outer.optional = true
  · simp [houter]
  · simp [houter, h]

theorem addBounds_eq_zero_iff (a b : UInt32) : addBounds a b = 0 ↔ a = 0 ∧ b = 0 := by
  simp only [← UInt32.toNat_inj, toNat_addBounds, UInt32.toNat_zero, UInt32.size]
  omega

theorem occurrenceType_widened_some :
    occurrenceType (widened (some q) p) = (occurrenceType q).join (occurrenceType p) :=
  occurrenceType_of_array rfl rfl

theorem RequiredByBound.widened {found : Option (Property Ty)}
    (hfound : ∀ q, found = some q → RequiredByBound q) (hp : RequiredByBound p) :
    RequiredByBound (widened found p) := by
  cases found with
  | none => exact hp
  | some q =>
    have hq : q.required = true ↔ q.minOccurs ≠ 0 := hfound q rfl
    change (q.required || p.required) = true ↔ ¬ addBounds q.minOccurs p.minOccurs = 0
    rw [addBounds_eq_zero_iff, not_and_or, Bool.or_eq_true, hq]
    exact or_congr_right hp

/-! ### Adding elements -/

/-- Later properties cover at least the occurrences that earlier ones do. -/
def Grows (before after : Properties) : Prop :=
  ∀ x p, before.lookup x = some p →
    ∃ q, after.lookup x = some q ∧ Ty.Fits (occurrenceType p) (occurrenceType q)

/-- What importing keeps true of the properties. -/
structure Sound (ps : Properties) : Prop where
  wellFormed : (Ty.object ps false).WellFormed
  required : ∀ x p, isChild x = true → ps.lookup x = some p → RequiredByBound p

theorem Sound.lookup (h : Sound ps) (hp : ps.lookup x = some p) : p.ty.WellFormed :=
  (Ty.WellFormed.object_iff.mp h.wellFormed).2 x p (Entries.mem_of_lookup hp)

theorem Sound.addElement (h : Sound ps) (hp : p.ty.WellFormed) (hrequired : RequiredByBound p) :
    Sound (addElement name p ps) where
  wellFormed := wellFormed_addElement h.wellFormed hp
  required := by
    intro x q hx hq
    rw [addElement_eq_insert] at hq
    by_cases hname : x = name
    · subst hname
      rw [Entries.lookup_insert_self] at hq
      cases hq
      exact .widened (fun q hq => h.required x q hx hq) hrequired
    · rw [Entries.lookup_insert_of_ne hname] at hq
      exact h.required x q hx hq

/-- Properties among which there is no child. -/
structure Childless (ps : Properties) : Prop where
  wellFormed : (Ty.object ps false).WellFormed
  noChild : ∀ x, isChild x = true → boundsAt? x ps = none

theorem Childless.sound (h : Childless ps) : Sound ps where
  wellFormed := h.wellFormed
  required := by
    intro x p hx hp
    have hnone := h.noChild x hx
    rw [boundsAt?, hp] at hnone
    cases hnone

namespace Grows

variable {before middle after : Properties}

theorem refl (h : Sound ps) : Grows ps ps := by
  intro x p hp
  exact ⟨p, hp, .refl (wellFormed_occurrenceType (h.lookup hp))⟩

theorem trans (h : Grows before middle) (h' : Grows middle after) : Grows before after := by
  intro x p hp
  obtain ⟨q, hq, hpq⟩ := h x p hp
  obtain ⟨s, hs, hqs⟩ := h' x q hq
  exact ⟨s, hs, hpq.trans hqs⟩

/-- A property that is there already is widened, and the others are left alone. -/
theorem addElement (h : Sound ps) (hp : p.ty.WellFormed) : Grows ps (addElement name p ps) := by
  intro x q hq
  have hq' := wellFormed_occurrenceType (h.lookup hq)
  rw [addElement_eq_insert]
  by_cases hname : x = name
  · subst hname
    refine ⟨_, Entries.lookup_insert_self, ?_⟩
    rw [hq, occurrenceType_widened_some]
    exact (Ty.fits_join hq' (wellFormed_occurrenceType hp)).1
  · rw [Entries.lookup_insert_of_ne hname]
    exact ⟨q, hq, .refl hq'⟩

end Grows

/-- The property covers the element that was added last. -/
theorem exists_fits_addElement (h : Sound ps) (hp : p.ty.WellFormed) :
    ∃ q, (addElement name p ps).lookup name = some q ∧
      Ty.Fits (occurrenceType p) (occurrenceType q) := by
  have hp' := wellFormed_occurrenceType hp
  rw [addElement_eq_insert]
  refine ⟨_, Entries.lookup_insert_self, ?_⟩
  cases hfound : ps.lookup name with
  | none => exact .refl hp'
  | some q =>
    rw [occurrenceType_widened_some]
    exact (Ty.fits_join (wellFormed_occurrenceType (h.lookup hfound)) hp').2

namespace Resolver

/-- The type of one occurrence of an element, which may be a reference to a global one. -/
def occurrence (r : Resolver (Except ImportError)) (element : Element) : Except ImportError Ty :=
  match element.reference with
  | some reference => (r.element reference).map fun found => found.2.1
  | none => r.elementType element

/-- The element has a property, which covers its occurrences. -/
def Covers (r : Resolver (Except ImportError)) (ps : Properties) (element : Element) : Prop :=
  ∃ x t p, element.label? = some x ∧ r.occurrence element = .ok t ∧ ps.lookup x = some p ∧
    t.WellFormed ∧ Ty.Fits t (occurrenceType p)

theorem Covers.mono {before after : Properties} (h : r.Covers before element)
    (hgrows : Grows before after) : r.Covers after element := by
  obtain ⟨x, t, p, hlabel, ht, hp, hwf, hfits⟩ := h
  obtain ⟨q, hq, hpq⟩ := hgrows x p hp
  exact ⟨x, t, q, hlabel, ht, hq, hwf, hfits.trans hpq⟩

/-- Elements were added to properties. -/
structure Adds (r : Resolver (Except ImportError)) (Has : Element → Prop) (before after : Properties) :
    Prop where
  sound : Sound after
  grows : Grows before after
  covers : ∀ element, Has element → r.Covers after element

/-- The property of an element is that of one occurrence, or an array if there may be more. -/
theorem declare_occurrence (element : Element) :
    Yields (fun declared => ∃ t, r.occurrence element = .ok t ∧
        declared.2.ty = (if declared.2.isRepeated then .array t else t) ∧
        declared.2.required = decide (0 < declared.2.minOccurs))
      (r.declare element (r.elementType element)) := by
  unfold declare occurrence
  cases element.reference with
  | some reference =>
    refine yields_self.bind fun found hfound => ⟨found.2.1, ?_, rfl, rfl⟩
    dsimp only
    rw [hfound]
    rfl
  | none =>
    cases element.name with
    | some name => exact yields_self.bind fun t ht => ⟨t, ht, rfl, rfl⟩
    | none => trivial

theorem declare_covers (element : Element) :
    Yields (fun declared => r.occurrence element = .ok (occurrenceType declared.2) ∧
        RequiredByBound declared.2)
      (r.declare element (r.elementType element)) := by
  refine .of_forall fun declared hdeclared => ?_
  obtain ⟨t, ht, hty, hrequired⟩ := (declare_occurrence element).of_eq_ok hdeclared
  constructor
  · rw [ht]
    by_cases hrepeated : declared.2.isRepeated = true
    · rw [if_pos hrepeated] at hty
      rw [occurrenceType_of_array hty hrepeated]
    · rw [if_neg hrepeated] at hty
      rw [occurrenceType_of_single (Bool.eq_false_iff.mpr hrepeated), hty]
  · unfold RequiredByBound
    rw [hrequired, decide_eq_true_iff, UInt32.pos_iff_ne_zero]

/-- One element is added. -/
theorem adds_element {own : Element} (hps : Sound ps) (hlabel : own.label? = some name)
    (hp : p.ty.WellFormed) (hoccurrence : r.occurrence own = .ok (occurrenceType p))
    (hrequired : RequiredByBound p) :
    r.Adds (fun element => ∃ lowers, (Particle.element own).Contains element lowers) ps
      (addElement name (outer.apply p) ps) where
  sound := hps.addElement (wellFormed_apply hp) hrequired.apply
  grows := .addElement hps (wellFormed_apply hp)
  covers := by
    rintro element ⟨lowers, hcontains⟩
    obtain ⟨rfl, rfl⟩ := Particle.contains_element_iff.mp hcontains
    obtain ⟨q, hq, hfits⟩ := exists_fits_addElement hps (wellFormed_apply hp)
    rw [occurrenceType_apply] at hfits
    exact ⟨name, _, q, hlabel, hoccurrence, hq, wellFormed_occurrenceType hp, hfits⟩

theorem Adds.trans {Has Has' : Element → Prop} {before middle after : Properties}
    (h : r.Adds Has before middle) (h' : r.Adds Has' middle after) :
    r.Adds (fun element => Has element ∨ Has' element) before after where
  sound := h'.sound
  grows := h.grows.trans h'.grows
  covers := by
    rintro element (helement | helement)
    · exact (h.covers element helement).mono h'.grows
    · exact h'.covers element helement

/-- The particles of a group are added one after the other. -/
theorem Adds.group {compositor : Compositor} {particles : List Particle} {minOccurs : UInt32}
    {maxOccurs : Int32} {before after : Properties}
    (h : r.Adds (fun element => ∃ particle ∈ particles, ∃ lowers, particle.Contains element lowers)
      before after) :
    r.Adds (fun element => ∃ lowers,
      (Particle.group compositor particles minOccurs maxOccurs).Contains element lowers)
      before after where
  sound := h.sound
  grows := h.grows
  covers := by
    rintro element ⟨lowers, hcontains⟩
    obtain ⟨particle, hmem, inner, hinner, _⟩ := Particle.contains_group_iff.mp hcontains
    exact h.covers element ⟨particle, hmem, inner, hinner⟩

mutual

/-- The elements of a particle are added. What was covered before the next particle of a group stays
covered. -/
theorem particle_adds (hwf : r.WellFormed) (hr : r.NamesLocally) (outer : Multiplicity) :
    ∀ particle state, Particle.choiceFree particle = true → Sound state.1 →
      Yields (fun after => r.Adds (fun element => ∃ lowers, particle.Contains element lowers)
          state.1 after.1)
        (r.particle outer particle state)
  | .element element, (ps, choices), _, hps => by
    rw [particle]
    have hdeclared : Yields (fun declared => element.label? = some declared.1 ∧
        declared.2.ty.WellFormed ∧ r.occurrence element = .ok (occurrenceType declared.2) ∧
        RequiredByBound declared.2) (r.declare element (r.elementType element)) := by
      refine .of_forall fun declared hdeclared => ?_
      have hlabel := ((declare_bounds hr element _).of_eq_ok hdeclared).1
      have hty := (declare_wellFormed hwf element (elementType_wellFormed hwf element)).of_eq_ok hdeclared
      exact ⟨hlabel, hty, (declare_covers element).of_eq_ok hdeclared⟩
    refine hdeclared.bind ?_
    rintro ⟨name, p⟩ ⟨hlabel, hp, hoccurrence, hrequired⟩
    exact adds_element hps hlabel hp hoccurrence hrequired
  | .group .sequence particles _ _, state, hfree, hps => by
    rw [particle]
    · refine .of_forall fun after hafter => ?_
      exact ((particles_adds hwf hr _ particles state hfree hps).of_eq_ok hafter).group
    · simp
  | .group .all particles _ _, state, hfree, hps => by
    rw [particle]
    · refine .of_forall fun after hafter => ?_
      exact ((particles_adds hwf hr _ particles state hfree hps).of_eq_ok hafter).group
    · simp
  | .group .choice _ _ _, _, hfree, _ => by cases hfree
termination_by structural particle => particle

theorem particles_adds (hwf : r.WellFormed) (hr : r.NamesLocally) (outer : Multiplicity) :
    ∀ particles state, choiceFreeAll particles = true → Sound state.1 →
      Yields (fun after => r.Adds (fun element => ∃ particle ∈ particles, ∃ lowers,
          particle.Contains element lowers) state.1 after.1)
        (r.particles outer particles state)
  | [], state, _, hps => by
    refine ⟨hps, .refl hps, ?_⟩
    simp
  | first :: rest, state, hfree, hps => by
    obtain ⟨hfirst, hrest⟩ := Bool.and_eq_true_iff.mp hfree
    rw [particles]
    refine (particle_adds hwf hr outer first state hfirst hps).bind fun middle hmiddle => ?_
    refine Yields.of_forall fun after hafter => ?_
    have hrest := (particles_adds hwf hr outer rest middle hrest hmiddle.sound).of_eq_ok hafter
    simp only [List.exists_mem_cons_iff]
    exact hmiddle.trans hrest
termination_by structural particles => particles

end

theorem attributes_childless (hwf : r.WellFormed) (attrs : List Attribute) :
    Yields Childless (r.attributes attrs []) := by
  refine .of_forall fun ps hps => ⟨?_, fun x hx => ?_⟩
  · exact (attributes_wellFormed hwf attrs Ty.wellFormed_object_nil).of_eq_ok hps
  · exact (attributes_bounds hx attrs).of_eq_ok hps

theorem content_childless (hwf : r.WellFormed) (simpleContent : Option String) (mixed : Bool)
    (h : Childless ps) : Yields Childless (r.content simpleContent mixed ps) := by
  refine .of_forall fun ps' hps' => ⟨?_, fun x hx => ?_⟩
  · exact (content_wellFormed hwf simpleContent mixed h.wellFormed).of_eq_ok hps'
  · exact ((content_bounds hx simpleContent mixed).of_eq_ok hps').trans (h.noChild x hx)

/-- An imported complex type has its elements and nothing else besides attributes and text. -/
theorem complexType_adds (hwf : r.WellFormed) (hr : r.NamesLocally) {type : ComplexType}
    (hfree : ∀ particle, type.content = some particle → particle.choiceFree = true) :
    Yields (fun t => ∃ ps, t = .object ps false ∧ Sound ps ∧
        (∀ element lowers, type.Contains element lowers → r.Covers ps element) ∧
        ∀ x, isChild x = true → boundsAt? x ps = (type.leaves x).foldl addLeaf none)
      (r.complexType type) := by
  obtain ⟨_, content, attributes, simpleContent, mixed⟩ := type
  rw [complexType]
  refine (attributes_childless hwf attributes).bind fun ps hps => ?_
  refine (content_childless hwf simpleContent mixed hps).bind fun ps' hps' => ?_
  cases content with
  | none =>
    refine ⟨ps', rfl, hps'.sound, ?_, hps'.noChild⟩
    rintro element lowers ⟨particle, hcontent, _⟩
    cases hcontent
  | some particle =>
    have hparticle := hfree particle rfl
    refine yields_self.bind fun after hafter => ?_
    have hadds := (particle_adds hwf hr .once particle (ps', 0) hparticle hps'.sound).of_eq_ok hafter
    refine ⟨after.1, rfl, hadds.sound, ?_, fun x hx => ?_⟩
    · rintro element lowers ⟨_, hcontent, hcontains⟩
      cases hcontent
      exact hadds.covers element ⟨lowers, hcontains⟩
    · have hbounds := (particle_bounds hr x .once particle (ps', 0) hparticle).of_eq_ok hafter
      rw [hbounds, hps'.noChild x hx]
      rfl

end Resolver

/-! ### Demanded elements -/

theorem leafBounds_lower_eq_zero_iff (leaf : Multiplicity × Element) :
    (leafBounds leaf).1 = 0 ↔ ¬ (leaf.1.optional = false ∧ 0 < leaf.2.minOccurs) := by
  unfold leafBounds
  by_cases hoptional : leaf.1.optional = true
  · simp [hoptional]
  · simp [hoptional, UInt32.pos_iff_ne_zero]

/-- The merged lower bound is zero only if all that were merged are. -/
theorem foldl_addLeaf_eq_zero_iff {leaves : List (Multiplicity × Element)}
    {found : Option (UInt32 × Int32)} {bounds : UInt32 × Int32}
    (h : leaves.foldl addLeaf found = some bounds) :
    bounds.1 = 0 ↔ (∀ earlier, found = some earlier → earlier.1 = 0) ∧
      ∀ leaf ∈ leaves, (leafBounds leaf).1 = 0 := by
  induction leaves generalizing found with
  | nil => simp_all
  | cons leaf leaves ih =>
    rw [ih h, List.forall_mem_cons, ← and_assoc]
    refine and_congr_left fun _ => ?_
    cases found with
    | none => simp [addLeaf, mergeBounds]
    | some earlier => simp [addLeaf, mergeBounds, addBounds_eq_zero_iff]

theorem mem_keys_iff_exists_leaf {leaves : List (Multiplicity × Element)}
    (h : boundsAt? x ps = leaves.foldl addLeaf none) :
    x ∈ Entries.keys ps ↔ ∃ leaf ∈ leaves, True := by
  rw [← Entries.hasKey_iff, Entries.hasKey, ← Option.isSome_map, ← boundsAt?, h]
  cases leaves with
  | nil => simp
  | cons leaf leaves =>
    have hsome : ∃ bounds, (leaf :: leaves).foldl addLeaf none = some bounds := exists_foldl_addLeaf
    exact iff_of_true (Option.isSome_iff_exists.mpr hsome) ⟨leaf, List.mem_cons_self, trivial⟩

theorem isOptional_eq_false_iff_exists_leaf {leaves : List (Multiplicity × Element)}
    (hrequired : RequiredByBound p) (h : leaves.foldl addLeaf none = some (boundsOf p)) :
    p.isOptional = false ↔ ∃ leaf ∈ leaves, leaf.1.optional = false ∧ 0 < leaf.2.minOccurs := by
  rw [hrequired.isOptional_eq_false_iff]
  change ¬ (boundsOf p).1 = 0 ↔ _
  rw [foldl_addLeaf_eq_zero_iff h]
  simp only [leafBounds_lower_eq_zero_iff]
  constructor
  · intro hnot
    by_contra hall
    refine hnot ⟨?_, fun leaf hleaf hdemanded => hall ⟨leaf, hleaf, hdemanded⟩⟩
    intro earlier hearlier
    cases hearlier
  · rintro ⟨leaf, hleaf, hdemanded⟩ ⟨_, hall⟩
    exact hall leaf hleaf hdemanded

/-- **Every declared element is represented with a covering type.** The children of an imported complex
type without choices are the elements in its content. Each element covers at most what the property with
its name covers, and a property is demanded exactly if an element with its name is, and all groups around
that element are. -/
theorem elements_represented {schema : Schema} {available : List String} {type : ComplexType} {t : Ty}
    (himport : (schema.resolverAmong available).complexType type = .ok t)
    (hfree : ∀ particle, type.content = some particle → particle.choiceFree = true) :
    ∃ ps, t = .object ps false ∧
      (∀ x, isChild x = true → (x ∈ Entries.keys ps ↔
        ∃ element lowers, type.Contains element lowers ∧ element.label? = some x)) ∧
      (∀ element lowers, type.Contains element lowers →
        ∃ x one p, element.label? = some x ∧
          (schema.resolverAmong available).occurrence element = .ok one ∧
          ps.lookup x = some p ∧ one.subtypeOf (occurrenceType p) = true) ∧
      ∀ x p, isChild x = true → ps.lookup x = some p →
        (p.isOptional = false ↔ ∃ element lowers, type.Contains element lowers ∧
          element.label? = some x ∧ 0 ∉ lowers ∧ 0 < element.minOccurs) := by
  have hwf := wellFormed_resolverAmong schema available
  have hr := namesLocally_resolverAmong schema available
  obtain ⟨ps, rfl, hsound, hcovers, hbounds⟩ := (Resolver.complexType_adds hwf hr hfree).of_eq_ok himport
  refine ⟨ps, rfl, fun x hx => ?_, fun element lowers hcontains => ?_, fun x p hx hp => ?_⟩
  · rw [mem_keys_iff_exists_leaf (hbounds x hx), type.exists_leaf_iff (fun _ _ => True) hfree]
    simp only [and_true]
  · obtain ⟨x, one, p, hlabel, hone, hp, honewf, hfits⟩ := hcovers element lowers hcontains
    have hpwf := wellFormed_occurrenceType (hsound.lookup hp)
    exact ⟨x, one, p, hlabel, hone, hp, Ty.subtypeOf_of_fits honewf hpwf hfits⟩
  · have hmerged : (type.leaves x).foldl addLeaf none = some (boundsOf p) := by
      rw [← hbounds x hx, boundsAt?, hp]
      rfl
    rw [isOptional_eq_false_iff_exists_leaf (hsound.required x p hx hp) hmerged,
      type.exists_leaf_iff (fun optional element => optional = false ∧ 0 < element.minOccurs) hfree]
    have hany : ∀ lowers : List UInt32, lowers.any (· == 0) = false ↔ 0 ∉ lowers := by
      intro lowers
      rw [List.any_beq', List.contains_eq_mem, decide_eq_false_iff_not]
    simp only [hany]

/-- Plain text and, in a group that may be left out, mixed content that may be null have one name. -/
theorem elements_represented_of_texts :
    let plain : Element := { name := some "line", simpleType := some {} }
    let mixed : Element :=
      { name := some "line", complexType := some { mixed := true }, nillable := true
        maxOccurs := unbounded }
    let type : ComplexType :=
      { content := some (.group .sequence
          [.element plain, .group .all [.element mixed, .element { name := some "note" }] 0 1] 1 1)
        attributes := [{ name := "line" }] }
    ∃ ps p, (({} : Schema).resolverAmong []).complexType type = .ok (.object ps false) ∧
      ps.lookup "line" = some p ∧ p.isOptional = false ∧
      Ty.string.subtypeOf (occurrenceType p) = true ∧
      (Ty.union [.object [("_text", .optional .string)] false, .null]).subtypeOf
        (occurrenceType p) = true := by
  intro plain mixed type
  have himport : ∃ ps, (({} : Schema).resolverAmong []).complexType type = .ok (.object ps false) :=
    ⟨_, rfl⟩
  have hplain : type.Contains plain [1] := ⟨_, rfl, .inside List.mem_cons_self .here⟩
  have hmixed : type.Contains mixed [1, 0] :=
    ⟨_, rfl, .inside (List.mem_cons_of_mem _ List.mem_cons_self) (.inside List.mem_cons_self .here)⟩
  obtain ⟨ps, himport⟩ := himport
  obtain ⟨_, heq, _, hcovers, hdemands⟩ := elements_represented himport fun particle hparticle => by
    cases hparticle
    rfl
  cases heq
  obtain ⟨x, one, p, hlabel, hone, hp, hfits⟩ := hcovers plain [1] hplain
  cases hlabel
  cases hone
  obtain ⟨x, one, q, hlabel, hone, hq, hfits'⟩ := hcovers mixed [1, 0] hmixed
  cases hlabel
  cases hone
  obtain rfl := Option.some.inj (hp.symm.trans hq)
  have hdemanded := (hdemands "line" p (by decide) hp).mpr
    ⟨plain, [1], hplain, rfl, by decide, by decide⟩
  exact ⟨ps, p, himport, hp, hdemanded, hfits, hfits'⟩

end SchemaInfer.Xsd
