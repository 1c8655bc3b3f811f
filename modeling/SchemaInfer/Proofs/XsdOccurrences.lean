import SchemaInfer.Proofs.ImportedTypes
import SchemaInfer.Proofs.XsdContent

/-!
# The bounds of imported properties

Importing a complex type goes through its content model once and carries along whether the groups around
an element may be left out and whether one of them repeats. The bounds that an imported property ends up
with are those of the elements with its name, each adjusted to the groups around it, and merged in their
order: `particle_bounds` states this as a fold over `Particle.leaves`. The lower bound is sound. So is the
upper bound, except where the name belongs to a single element that may occur more than once, but not
without bound, and stands in a group that repeats: there the upper bound counts the elements of one round.
-/

namespace SchemaInfer.Xsd

variable {x name : String} {n : Nat} {outer : Multiplicity} {element : Element} {p : Property Ty}
  {ps : Properties} {r : Resolver (Except ImportError)}

/-! ### Bounds -/

/-- The bounds of a property. -/
def boundsOf (p : Property Ty) : UInt32 × Int32 :=
  (p.minOccurs, p.maxOccurs)

/-- The bounds of the property with a name, if there is one. -/
def boundsAt? (x : String) (ps : Properties) : Option (UInt32 × Int32) :=
  (ps.lookup x).map boundsOf

/-- The bounds of an element, adjusted to the groups around it. -/
def leafBounds (leaf : Multiplicity × Element) : UInt32 × Int32 :=
  (if leaf.1.optional then 0 else leaf.2.minOccurs,
    if leaf.1.repeated && !isRepeated leaf.2.maxOccurs then unbounded else leaf.2.maxOccurs)

/-- Bounds merged with those of one more element of the same name. -/
def mergeBounds (found : Option (UInt32 × Int32)) (bounds : UInt32 × Int32) : UInt32 × Int32 :=
  match found with
  | none => bounds
  | some earlier => (addBounds earlier.1 bounds.1, unbounded)

def addLeaf (found : Option (UInt32 × Int32)) (leaf : Multiplicity × Element) :
    Option (UInt32 × Int32) :=
  some (mergeBounds found (leafBounds leaf))

/-! ### What importing does to the bounds -/

theorem minOccurs_apply : (outer.apply p).minOccurs = if outer.optional then 0 else p.minOccurs := by
  unfold Multiplicity.apply
  dsimp only
  split_ifs <;> rfl

theorem maxOccurs_apply : (outer.apply p).maxOccurs =
    if outer.repeated && !p.isRepeated then unbounded else p.maxOccurs := by
  have hoptional : (if outer.optional then { p with required := false, minOccurs := 0 } else p).maxOccurs =
      p.maxOccurs := by
    split_ifs <;> rfl
  unfold Multiplicity.apply Property.isRepeated
  dsimp only
  rw [hoptional]
  split_ifs <;> rfl

theorem boundsOf_apply (hmin : p.minOccurs = element.minOccurs) (hmax : p.maxOccurs = element.maxOccurs) :
    boundsOf (outer.apply p) = leafBounds (outer, element) := by
  rw [boundsOf, leafBounds, minOccurs_apply, maxOccurs_apply, Property.isRepeated, hmin, hmax]

/-- A property with that of one more element of the same name. -/
def widened (found : Option (Property Ty)) (p : Property Ty) : Property Ty :=
  match found with
  | none => p
  | some q =>
    { q with
      ty := .array ((occurrenceType q).join (occurrenceType p))
      required := q.required || p.required
      minOccurs := addBounds q.minOccurs p.minOccurs
      maxOccurs := unbounded }

theorem addElement_eq_insert :
    addElement name p ps = Entries.insert name (widened (ps.lookup name) p) ps := by
  unfold addElement
  split
  · rename_i hnone
    rw [hnone]
    rfl
  · rename_i q hq
    rw [hq]
    rfl

theorem boundsAt?_insert_of_ne (h : x ≠ name) :
    boundsAt? x (Entries.insert name p ps) = boundsAt? x ps := by
  unfold boundsAt?
  rw [Entries.lookup_insert_of_ne h]

theorem boundsAt?_addElement_self :
    boundsAt? name (addElement name p ps) = some (mergeBounds (boundsAt? name ps) (boundsOf p)) := by
  unfold boundsAt?
  rw [addElement_eq_insert, Entries.lookup_insert_self]
  cases ps.lookup name <;> rfl

theorem boundsAt?_addElement_of_ne (h : x ≠ name) :
    boundsAt? x (addElement name p ps) = boundsAt? x ps := by
  rw [addElement_eq_insert]
  exact boundsAt?_insert_of_ne h

theorem ne_attributeProperty (hx : isChild x = true) : x ≠ attributeProperty name := by
  rintro rfl
  simp [isChild, attributeName?, attributeProperty] at hx

theorem ne_textProperty (hx : isChild x = true) : x ≠ textProperty := by
  rintro rfl
  simp [isChild] at hx

theorem label?_of_reference {reference : String} (h : element.reference = some reference) :
    element.label? = some (splitName reference).2 := by
  unfold Element.label?
  rw [h]

theorem label?_of_name (h : element.reference = none) : element.label? = element.name := by
  unfold Element.label?
  rw [h]

namespace Resolver

/-- References stand for elements with the name that they refer to, its prefix aside. -/
def NamesLocally (r : Resolver (Except ImportError)) : Prop :=
  ∀ reference, Yields (fun found => found.1 = (splitName reference).2) (r.element reference)

theorem declare_bounds (hr : r.NamesLocally) (element : Element) (own : Except ImportError Ty) :
    Yields (fun declared => element.label? = some declared.1 ∧
        declared.2.minOccurs = element.minOccurs ∧ declared.2.maxOccurs = element.maxOccurs)
      (r.declare element own) := by
  unfold declare
  dsimp only
  split
  · rename_i reference hreference
    refine (hr reference).bind fun found hfound => ?_
    refine ⟨?_, rfl, rfl⟩
    rw [label?_of_reference hreference, hfound]
  · rename_i name hreference hname
    refine yields_true.bind fun ty _ => ⟨?_, rfl, rfl⟩
    rw [label?_of_name hreference, hname]
  · trivial

mutual

theorem particle_bounds (hr : r.NamesLocally) (x : String) (outer : Multiplicity) :
    ∀ particle state, Particle.choiceFree particle = true →
      Yields (fun after => boundsAt? x after.1 =
          (particle.leaves x outer).foldl addLeaf (boundsAt? x state.1))
        (r.particle outer particle state)
  | .element element, (ps, choices), _ => by
    rw [particle]
    refine (declare_bounds hr element _).bind ?_
    rintro ⟨name, p⟩ ⟨hlabel, hmin, hmax⟩
    change boundsAt? x (addElement name (outer.apply p) ps) = _
    rw [Particle.leaves, hlabel]
    split
    · rename_i heq
      obtain rfl := Option.some.inj heq
      rw [boundsAt?_addElement_self, boundsOf_apply hmin hmax]
      rfl
    · rename_i hne
      exact boundsAt?_addElement_of_ne fun heq => hne (congrArg some heq.symm)
  | .group .sequence particles _ _, state, hfree => by
    rw [particle]
    · exact particles_bounds hr x _ particles state hfree
    · simp
  | .group .all particles _ _, state, hfree => by
    rw [particle]
    · exact particles_bounds hr x _ particles state hfree
    · simp
  | .group .choice _ _ _, _, hfree => by cases hfree
termination_by structural particle => particle

theorem particles_bounds (hr : r.NamesLocally) (x : String) (outer : Multiplicity) :
    ∀ particles state, choiceFreeAll particles = true →
      Yields (fun after => boundsAt? x after.1 =
          (leavesOfAll x outer particles).foldl addLeaf (boundsAt? x state.1))
        (r.particles outer particles state)
  | [], state, _ => by rfl
  | first :: rest, state, hfree => by
    obtain ⟨hfirst, hrest⟩ := Bool.and_eq_true_iff.mp hfree
    rw [particles, leavesOfAll]
    refine (particle_bounds hr x outer first state hfirst).bind fun middle hmiddle => ?_
    rw [List.foldl_append, ← hmiddle]
    exact particles_bounds hr x outer rest middle hrest
termination_by structural particles => particles

end

/-- Attributes and text have names of their own. -/
theorem attributes_bounds (hx : isChild x = true) (attrs : List Attribute) {ps : Properties} :
    Yields (fun after => boundsAt? x after = boundsAt? x ps) (r.attributes attrs ps) := by
  induction attrs generalizing ps with
  | nil => exact rfl
  | cons attr attrs ih =>
    rw [attributes]
    split
    · exact ih
    · refine yields_true.bind fun ty _ => ?_
      dsimp only
      rw [← boundsAt?_insert_of_ne (ne_attributeProperty hx)]
      exact ih

theorem content_bounds (hx : isChild x = true) (simpleContent : Option String) (mixed : Bool) :
    Yields (fun after => boundsAt? x after = boundsAt? x ps) (r.content simpleContent mixed ps) := by
  unfold content
  split
  · exact yields_true.bind fun ty _ => boundsAt?_insert_of_ne (ne_textProperty hx)
  · exact boundsAt?_insert_of_ne (ne_textProperty hx)
  · rfl

theorem complexType_bounds (hr : r.NamesLocally) (hx : isChild x = true) {type : ComplexType}
    {particle : Particle} (hcontent : type.content = some particle)
    (hfree : particle.choiceFree = true) :
    Yields (fun t => ∃ ps, t = .object ps false ∧
        boundsAt? x ps = (particle.leaves x .once).foldl addLeaf none)
      (r.complexType type) := by
  obtain ⟨_, content, attributes, simpleContent, mixed⟩ := type
  obtain rfl : content = some particle := hcontent
  rw [complexType]
  refine (attributes_bounds hx attributes).bind fun ps hps => ?_
  refine (content_bounds hx simpleContent mixed).bind fun ps' hps' => ?_
  refine (particle_bounds hr x .once particle (ps', 0) hfree).bind fun state hstate => ?_
  refine ⟨state.1, rfl, ?_⟩
  rw [hstate, hps', hps]
  rfl

end Resolver

theorem namesLocally_resolverAmong (schema : Schema) (available : List String) :
    (schema.resolverAmong available).NamesLocally := by
  intro reference
  change Yields _ (expandElement schema available reference)
  rw [expandElement]
  dsimp only
  split
  · trivial
  · exact .expanding fun rest _ => yields_true.bind fun ty _ => rfl

/-! ### Merged bounds are sound -/

theorem toNat_addBounds (a b : UInt32) :
    (addBounds a b).toNat = min (a.toNat + b.toNat) (UInt32.size - 1) := by
  rw [addBounds, UInt32.toNat_ofNat', Nat.mod_eq_of_lt]
  exact Nat.lt_of_le_of_lt (Nat.min_le_right _ _) (by decide)

theorem toNat_addBounds_le (a b : UInt32) : (addBounds a b).toNat ≤ a.toNat + b.toNat := by
  rw [toNat_addBounds]
  exact Nat.min_le_left _ _

theorem leafBounds_lower (h : outer.Total (Allows element.minOccurs element.maxOccurs) n) :
    (leafBounds (outer, element)).1.toNat ≤ n := by
  obtain ⟨rounds, hlength, hrounds, rfl⟩ := h
  unfold leafBounds
  dsimp only
  split
  · exact Nat.zero_le _
  · rename_i hoptional
    -- there is a first round, which alone has as many elements
    have hpos : 1 ≤ rounds.length := hlength.1 (Bool.eq_false_iff.mpr hoptional)
    cases rounds with
    | nil => cases hpos
    | cons round rounds =>
      have hround := (hrounds round List.mem_cons_self).1
      rw [List.sum_cons]
      omega

theorem leafBounds_upper (h : outer.Total (Allows element.minOccurs element.maxOccurs) n)
    (hsingle : outer.repeated = true → element.maxOccurs ≤ 1) :
    (leafBounds (outer, element)).2 < 0 ∨ (n : Int) ≤ (leafBounds (outer, element)).2.toInt := by
  obtain ⟨rounds, hlength, hrounds, rfl⟩ := h
  unfold leafBounds
  dsimp only
  split
  · exact Or.inl (by decide)
  · rename_i hkept
    by_cases hnegative : element.maxOccurs < 0
    · exact Or.inl hnegative
    · have hrepeated : outer.repeated = false := by
        refine Bool.eq_false_iff.mpr fun hrepeated => hkept ?_
        have hone : isRepeated element.maxOccurs = false := Bool.or_eq_false_iff.mpr
          ⟨decide_eq_false hnegative, decide_eq_false (Int32.not_lt.mpr (hsingle hrepeated))⟩
        rw [hrepeated, hone]
        rfl
      right
      cases rounds with
      | nil => exact Int32.le_iff_toInt_le.mp (Int32.not_lt.mp hnegative)
      | cons round rounds =>
        have hone : rounds.length + 1 ≤ 1 := hlength.2 hrepeated
        obtain rfl : rounds = [] := List.length_eq_zero_iff.mp (by omega)
        rw [List.sum_singleton]
        exact (hrounds round List.mem_cons_self).2.resolve_left hnegative

/-- Groups do not raise the bound of an element that may occur more than once. -/
theorem leafBounds_upper_eq (hone : 1 < element.maxOccurs) :
    (leafBounds (outer, element)).2 = element.maxOccurs := by
  simp [leafBounds, isRepeated, hone]

/-- The lower bound after some elements is at most the number of them. -/
theorem foldl_addLeaf_lower {leaves : List (Multiplicity × Element)} {found : Option (UInt32 × Int32)}
    {m : Nat} {bounds : UInt32 × Int32} (hfound : ∀ b, found = some b → b.1.toNat ≤ m)
    (h : PermitsLeaves leaves n) (hbounds : leaves.foldl addLeaf found = some bounds) :
    bounds.1.toNat ≤ m + n := by
  induction leaves generalizing found m n with
  | nil =>
    obtain rfl : n = 0 := h
    exact hfound bounds hbounds
  | cons leaf leaves ih =>
    obtain ⟨k, l, hk, hl, rfl⟩ := h
    rw [← Nat.add_assoc]
    refine ih (fun b hb => ?_) hl hbounds
    obtain rfl := Option.some.inj hb
    have hleaf : (leafBounds leaf).1.toNat ≤ k := leafBounds_lower hk
    cases hcase : found with
    | none => exact Nat.le_trans hleaf (Nat.le_add_left k m)
    | some earlier =>
      have hsum := toNat_addBounds_le earlier.1 (leafBounds leaf).1
      have hearlier := hfound earlier hcase
      change (addBounds earlier.1 (leafBounds leaf).1).toNat ≤ m + k
      omega

theorem lower_of_permitsLeaves {leaves : List (Multiplicity × Element)} {bounds : UInt32 × Int32}
    (hbounds : leaves.foldl addLeaf none = some bounds) (h : PermitsLeaves leaves n) :
    bounds.1.toNat ≤ n := by
  have hnone : ∀ b : UInt32 × Int32, none = some b → b.1.toNat ≤ 0 := by
    intro b hb
    cases hb
  have hlower := foldl_addLeaf_lower hnone h hbounds
  rwa [Nat.zero_add] at hlower

/-- Two elements of one name leave no upper bound. -/
theorem foldl_addLeaf_upper {leaf : Multiplicity × Element} {leaves : List (Multiplicity × Element)}
    {earlier bounds : UInt32 × Int32}
    (h : (leaf :: leaves).foldl addLeaf (some earlier) = some bounds) : bounds.2 = unbounded := by
  induction leaves generalizing leaf earlier with
  | nil =>
    obtain rfl := Option.some.inj h
    rfl
  | cons next leaves ih => exact ih h

theorem exists_foldl_addLeaf {leaves : List (Multiplicity × Element)} {earlier : UInt32 × Int32} :
    ∃ bounds, leaves.foldl addLeaf (some earlier) = some bounds := by
  induction leaves generalizing earlier with
  | nil => exact ⟨earlier, rfl⟩
  | cons leaf leaves ih => exact ih

/-- A single element that may occur more than once, but not without bound, in a group that repeats. -/
def CountsOneRound (leaves : List (Multiplicity × Element)) : Prop :=
  ∃ outer element, leaves = [(outer, element)] ∧ outer.repeated = true ∧ 1 < element.maxOccurs

theorem allows_of_permitsLeaves {leaves : List (Multiplicity × Element)} {bounds : UInt32 × Int32}
    (hbounds : leaves.foldl addLeaf none = some bounds) (hleaves : ¬ CountsOneRound leaves)
    (h : PermitsLeaves leaves n) : Allows bounds.1 bounds.2 n := by
  refine ⟨lower_of_permitsLeaves hbounds h, ?_⟩
  match leaves with
  | [] => cases hbounds
  | [(outer, element)] =>
    obtain rfl := Option.some.inj hbounds
    obtain ⟨k, l, hk, rfl, rfl⟩ := h
    refine leafBounds_upper hk fun hrepeated => Int32.not_lt.mp fun hone => ?_
    exact hleaves ⟨outer, element, rfl, hrepeated, hone⟩
  | leaf :: next :: leaves =>
    have hupper : bounds.2 = unbounded := foldl_addLeaf_upper hbounds
    exact Or.inl (hupper ▸ (by decide))

/-- **The bounds of imported properties are sound**, except that an element which repeats up to a bound
and is the only one of its name, in a group that repeats, has the upper bound of a single round. The lower
bound is sound in any case. Where all bounds allow something, the exception is real: more elements are
permitted than the imported upper bound allows. -/
theorem permitted_within_bounds {schema : Schema} {available : List String} {type : ComplexType}
    {particle : Particle} {t : Ty}
    (himport : (schema.resolverAmong available).complexType type = .ok t)
    (hcontent : type.content = some particle) (hfree : particle.choiceFree = true)
    (hx : isChild x = true) (hdeclared : particle.leaves x .once ≠ []) :
    ∃ ps p, t = .object ps false ∧ ps.lookup x = some p ∧
      (∀ n, particle.Permits x n → p.minOccurs.toNat ≤ n) ∧
      (¬ CountsOneRound (particle.leaves x .once) →
        ∀ n, particle.Permits x n → Allows p.minOccurs p.maxOccurs n) ∧
      (CountsOneRound (particle.leaves x .once) → particle.Satisfiable →
        ∃ n, particle.Permits x n ∧ ¬ Allows p.minOccurs p.maxOccurs n) := by
  have hr := namesLocally_resolverAmong schema available
  obtain ⟨ps, rfl, hps⟩ := (Resolver.complexType_bounds hr hx hcontent hfree).of_eq_ok himport
  have hleaves : ∀ n, particle.Permits x n → PermitsLeaves (particle.leaves x .once) n :=
    fun n hn => particle.permits_leaves x .once n hfree (Multiplicity.total_once hn)
  obtain ⟨bounds, hbounds⟩ : ∃ bounds, (particle.leaves x .once).foldl addLeaf none = some bounds := by
    obtain ⟨leaf, leaves, heq⟩ := List.exists_cons_of_ne_nil hdeclared
    rw [heq]
    exact exists_foldl_addLeaf
  obtain ⟨p, hp, rfl⟩ := Option.map_eq_some_iff.mp (hps.trans hbounds)
  refine ⟨ps, p, rfl, hp, ?_, ?_, ?_⟩
  · intro n hn
    exact lower_of_permitsLeaves hbounds (hleaves n hn)
  · intro hnot n hn
    exact allows_of_permitsLeaves hbounds hnot (hleaves n hn)
  · rintro ⟨outer, element, heq, hrepeated, hone⟩ hsat
    obtain ⟨n, hn, _, hlt⟩ := particle.exists_permits x .once hfree hsat outer element heq hone
    rw [heq] at hbounds
    have hmax : p.maxOccurs = element.maxOccurs :=
      (congrArg Prod.snd (Option.some.inj hbounds)).symm.trans (leafBounds_upper_eq hone)
    have hpos : (1 : Int) < element.maxOccurs.toInt := Int32.lt_iff_toInt_lt.mp hone
    have hexceeds : element.maxOccurs.toInt < n := hlt rfl hrepeated
    refine ⟨n, hn, ?_⟩
    rintro ⟨_, hnegative | hle⟩
    · have hnegative : p.maxOccurs.toInt < 0 := Int32.lt_iff_toInt_lt.mp hnegative
      rw [hmax] at hnegative
      omega
    · rw [hmax] at hle
      omega

/-- An element inside of a group that repeats, next to one that has its own group. -/
theorem permitted_within_bounds_of_lines :
    let particle : Particle := .group .sequence
      [.element { name := some "line" },
        .group .all [.element { name := some "note", maxOccurs := unbounded }] 0 1] 1 3
    let type : ComplexType := { content := some particle, attributes := [{ name := "line" }] }
    let properties : Properties :=
      [("@line", .optional .string), ("line", .mandatory (.array .any)),
        ("note", .optional (.array .any))]
    (({} : Schema).resolverAmong []).complexType type = .ok (.object properties false) ∧
      particle.Permits "line" 3 ∧
      ∃ p, properties.lookup "line" = some p ∧
        ∀ n, particle.Permits "line" n → Allows p.minOccurs p.maxOccurs n := by
  intro particle type properties
  have himport : (({} : Schema).resolverAmong []).complexType type = .ok (.object properties false) := rfl
  have hround : PermitsAll "line" [.element { name := some "line" },
      .group .all [.element { name := some "note", maxOccurs := unbounded }] 0 1] 1 := by
    refine ⟨1, 0, (Particle.permits_element_iff rfl).mpr (by decide), ?_, rfl⟩
    exact ⟨0, 0, ⟨[], by decide, List.forall_mem_nil _, rfl⟩, rfl, rfl⟩
  have hnot : ¬ CountsOneRound (particle.leaves "line" .once) := by
    rintro ⟨outer, element, heq, _, hone⟩
    cases heq
    revert hone
    decide
  obtain ⟨ps, p, heq, hp, _, hallowed, _⟩ :=
    permitted_within_bounds (x := "line") himport rfl rfl (by decide) (List.cons_ne_nil _ _)
  obtain ⟨rfl, _⟩ := Ty.object.inj heq
  refine ⟨himport, ⟨[1, 1, 1], by decide, fun k hk => ?_, rfl⟩, p, hp, hallowed hnot⟩
  obtain rfl : k = 1 := by simpa using hk
  exact hround

/-- Two rounds of two elements, where the imported upper bound is two. -/
theorem permitted_beyond_bounds :
    let particle : Particle := .group .sequence [.element { name := some "line", maxOccurs := 2 }] 1 3
    let p : Property Ty :=
      { ty := .array .any, required := true, minOccurs := 1, maxOccurs := 2, description := none }
    (({} : Schema).resolverAmong []).complexType { content := some particle } =
        .ok (.object [("line", p)] false) ∧
      particle.Permits "line" 4 ∧ ¬ Allows p.minOccurs p.maxOccurs 4 := by
  intro particle p
  refine ⟨rfl, ⟨[2, 2], by decide, ?_, rfl⟩, by decide⟩
  intro k hk
  obtain rfl : k = 2 := by simpa using hk
  exact ⟨2, 0, (Particle.permits_element_iff rfl).mpr (by decide), rfl, rfl⟩

end SchemaInfer.Xsd
