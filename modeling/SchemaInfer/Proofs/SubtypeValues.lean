import SchemaInfer.Proofs.JsonSchemaExport
import SchemaInfer.Proofs.Values

/-!
# Subtyping and values

Where one type is a subtype of another, its values should be values of the other. Subtyping compares the
properties that the second type demands and passes over the ones that it leaves optional, whatever their
types are. So what carries over is everything but the types of optional properties: `Ty.relaxed` is the
type with these left open. All values of all subtypes conform to it, and as it is a subtype itself,
nothing more can be said in terms of the second type alone. Where nothing is optional, subtyping is sound
for values as it stands.
-/

namespace SchemaInfer.Ty

open Json (Conforms)

variable {a b t : Ty} {ms : List Ty} {ps : Properties} {v : Json}

/-! ### Leaving the types of optional properties open -/

/-- The property with another type if it is demanded, and with any type if it is optional. -/
def relaxedProperty (p : Property Ty) (ty : Ty) : Property Ty :=
  { p with ty := if p.isOptional then any else ty }

mutual

/-- The type in which optional properties may have any type, at every depth. -/
def relaxed : Ty → Ty
  | array t => array t.relaxed
  | object ps isOpen => object (relaxedProperties ps) isOpen
  | union ms => oneOf (relaxedAll ms)
  | var name => var name
  | function params r => function params r
  | string => string
  | number => number
  | integer => integer
  | boolean => boolean
  | null => null
  | any => any

def relaxedAll : List Ty → List Ty
  | [] => []
  | t :: ts => t.relaxed :: relaxedAll ts

def relaxedProperties : List (String × Property Ty) → List (String × Property Ty)
  | [] => []
  | (name, p) :: ps => (name, relaxedProperty p p.ty.relaxed) :: relaxedProperties ps

end

theorem relaxedAll_eq_map (ts : List Ty) : relaxedAll ts = ts.map relaxed := by
  induction ts with
  | nil => rfl
  | cons t ts ih => rw [relaxedAll, ih, List.map_cons]

theorem relaxedProperties_eq_map (ps : Properties) : relaxedProperties ps =
    ps.map fun entry => (entry.1, relaxedProperty entry.2 entry.2.ty.relaxed) := by
  induction ps with
  | nil => rfl
  | cons entry ps ih => rw [relaxedProperties, ih, List.map_cons]

theorem keys_relaxedProperties (ps : Properties) :
    Entries.keys (relaxedProperties ps) = Entries.keys ps := by
  simp [relaxedProperties_eq_map, Entries.keys, Function.comp_def]

theorem mem_relaxedProperties {name : String} {q : Property Ty}
    (h : (name, q) ∈ relaxedProperties ps) :
    ∃ p, (name, p) ∈ ps ∧ q = relaxedProperty p p.ty.relaxed := by
  rw [relaxedProperties_eq_map] at h
  obtain ⟨⟨_, p⟩, hp, heq⟩ := List.mem_map.mp h
  obtain ⟨rfl, rfl⟩ := Prod.mk.inj heq
  exact ⟨p, hp, rfl⟩

theorem wellFormed_relaxed (ht : t.WellFormed) : t.relaxed.WellFormed := by
  induction t with
  | string | number | integer | boolean | null | any | var _ | function _ _ => exact ht
  | array t ih => exact WellFormed.array_iff.mpr (ih (WellFormed.array_iff.mp ht))
  | object ps isOpen ih =>
    obtain ⟨hkeys, hps⟩ := WellFormed.object_iff.mp ht
    rw [relaxed, WellFormed.object_iff, keys_relaxedProperties]
    refine ⟨hkeys, fun name q hq => ?_⟩
    obtain ⟨p, hp, rfl⟩ := mem_relaxedProperties hq
    unfold relaxedProperty
    split
    · exact .of_isPrimitive rfl
    · exact ih name p hp (hps name p hp)
  | union ms ih =>
    obtain ⟨_, _, _, hms⟩ := WellFormed.union_iff.mp ht
    rw [relaxed, relaxedAll_eq_map]
    exact wellFormed_oneOf (List.forall_mem_map.mpr fun m hm => ih m hm (hms m hm))

theorem relaxed_fits (ht : t.WellFormed) : Fits t.relaxed t := by
  induction t with
  | string | number | integer | boolean | null | any | var _ | function _ _ => exact .refl ht
  | array t ih => exact .array (ih (WellFormed.array_iff.mp ht))
  | object ps isOpen ih =>
    obtain ⟨hkeys, hps⟩ := WellFormed.object_iff.mp ht
    have hsame : ∀ name, name ∈ Entries.keys (relaxedProperties ps) ↔ name ∈ Entries.keys ps := by
      rw [keys_relaxedProperties]
      exact fun _ => Iff.rfl
    rw [relaxed]
    refine fits_object_of_same_keys hsame fun name q p hq hp hdemanded => ?_
    obtain ⟨p', hp', rfl⟩ := mem_relaxedProperties (Entries.mem_of_lookup hq)
    obtain rfl := Entries.eq_of_mem hkeys hp hp'
    refine ⟨hdemanded, ?_⟩
    simpa [relaxedProperty, hdemanded] using ih name p hp (hps name p hp)
  | union ms ih =>
    obtain ⟨hlength, _, _, hms⟩ := WellFormed.union_iff.mp ht
    have hne : ms.map relaxed ≠ [] := by
      intro hnil
      simp [List.map_eq_nil_iff.mp hnil] at hlength
    have hwf : ∀ s ∈ ms.map relaxed, s.WellFormed :=
      List.forall_mem_map.mpr fun m hm => wellFormed_relaxed (hms m hm)
    rw [relaxed, relaxedAll_eq_map]
    refine (oneOf_fits_iff hne hwf).mpr (List.forall_mem_map.mpr fun m hm => ?_)
    exact .unionRight hm (ih m hm (hms m hm))

/-! ### Types without optional properties -/

def AllDemandedNode : Ty → Prop
  | object ps _ => Entries.All (fun p => p.isOptional = false) ps
  | _ => True

instance : DecidablePred AllDemandedNode
  | object ps _ => inferInstanceAs (Decidable (Entries.All (fun p => p.isOptional = false) ps))
  | string | number | integer | boolean | null | any | array _ | union _ | var _ | function _ _ =>
    inferInstanceAs (Decidable True)

/-- No property inside the type may be absent. -/
def AllDemanded (t : Ty) : Prop :=
  t.Everywhere AllDemandedNode

instance : DecidablePred AllDemanded :=
  inferInstanceAs (DecidablePred (Everywhere AllDemandedNode))

theorem relaxed_eq_self (ht : t.WellFormed) (hdemanded : t.AllDemanded) : t.relaxed = t := by
  induction t with
  | string | number | integer | boolean | null | any | var _ | function _ _ => rfl
  | array t ih =>
    rw [relaxed, ih (WellFormed.array_iff.mp ht) (Everywhere.array_iff.mp hdemanded).2]
  | object ps isOpen ih =>
    obtain ⟨_, hps⟩ := WellFormed.object_iff.mp ht
    obtain ⟨hnode, hparts⟩ := Everywhere.object_iff.mp hdemanded
    have hsame : ∀ entry ∈ ps, (entry.1, relaxedProperty entry.2 entry.2.ty.relaxed) = entry := by
      rintro ⟨name, p⟩ hp
      have hty : p.ty.relaxed = p.ty := ih name p hp (hps name p hp) (hparts name p hp)
      simp [relaxedProperty, hnode name p hp, hty]
    rw [relaxed, relaxedProperties_eq_map, List.map_congr_left hsame, List.map_id']
  | union ms ih =>
    obtain ⟨_, _, _, hms⟩ := WellFormed.union_iff.mp ht
    have hparts := (Everywhere.union_iff.mp hdemanded).2
    have hsame : ∀ m ∈ ms, m.relaxed = m := fun m hm => ih m hm (hms m hm) (hparts m hm)
    rw [relaxed, relaxedAll_eq_map, List.map_congr_left hsame, List.map_id', oneOf_eq_union ht]

/-! ### Values of subtypes -/

/-- The values of a type that fits another conform to the other with the types of its optional
properties left open. -/
theorem conforms_relaxed_of_fits (hb : b.WellFormed) (hab : Fits a b) (hv : Conforms v a) :
    Conforms v b.relaxed := by
  induction hab generalizing v with
  | any => exact .any
  | @primitive a hprimitive =>
    cases a with
    | string | number | integer | boolean | null | any => exact hv
    | _ => cases hprimitive
  | var | function _ _ _ => cases hv
  | integer =>
    cases hv
    exact .wholeNumber
  | array _ ih =>
    cases hv with
    | array hitems => exact .array fun item hitem => ih (WellFormed.array_iff.mp hb) (hitems item hitem)
  | @object ps qs open₁ open₂ hopen hfound _ ih =>
    have hqs := (WellFormed.object_iff.mp hb).2
    cases hv with
    | object hpresent hconforms hclosed =>
    rw [relaxed]
    refine .object (fun name r hr hdemanded => ?_) (fun name r w hr hw => ?_)
      (fun hclosed₂ name hname => ?_)
    · obtain ⟨q, hq, rfl⟩ := mem_relaxedProperties hr
      obtain ⟨p, hp, hpdemanded⟩ := hfound name q hq hdemanded
      exact hpresent name p (Entries.mem_of_lookup hp) hpdemanded
    · obtain ⟨q, hq, rfl⟩ := mem_relaxedProperties hr
      unfold relaxedProperty
      split
      · exact .any
      · rename_i hoptional
        have hdemanded : q.isOptional = false := Bool.eq_false_iff.mpr hoptional
        obtain ⟨p, hp, _⟩ := hfound name q hq hdemanded
        exact ih name p q hp hq hdemanded (hqs name q hq)
          (hconforms name p w (Entries.mem_of_lookup hp) hw)
    · obtain ⟨hclosed₁, hkeys⟩ := hopen hclosed₂
      rw [keys_relaxedProperties]
      exact hkeys name (hclosed hclosed₁ name hname)
  | unionLeft _ ih =>
    cases hv with
    | union hm hv => exact ih _ hm hb hv
  | @unionRight n a ns hn _ ih =>
    obtain ⟨_, _, _, hns⟩ := WellFormed.union_iff.mp hb
    have hmem : n.relaxed ∈ ns.map relaxed := List.mem_map_of_mem hn
    rw [relaxed, relaxedAll_eq_map, conforms_oneOf_iff (List.ne_nil_of_mem hmem)]
    · exact ⟨n.relaxed, hmem, ih (hns n hn) hv⟩
    · exact List.forall_mem_map.mpr fun m hm => wellFormed_relaxed (hns m hm)

/-- **Subtyping is sound for values up to the types of optional properties.** A value of a subtype
conforms to the supertype with the types of its optional properties left open, and to the supertype
itself if it has none. The type with these left open is a subtype itself, so that no more can be said of
all subtypes. -/
theorem conforms_relaxed_of_subtypeOf (ha : a.WellFormed) (hb : b.WellFormed)
    (hsub : a.subtypeOf b = true) (hv : Conforms v a) :
    Conforms v b.relaxed ∧ (b.AllDemanded → Conforms v b) ∧
      b.relaxed.WellFormed ∧ b.relaxed.subtypeOf b = true := by
  have hrelaxed : Conforms v b.relaxed :=
    conforms_relaxed_of_fits hb (fits_of_subtypeOf ha hb hsub) hv
  refine ⟨hrelaxed, fun hdemanded => ?_, wellFormed_relaxed hb, ?_⟩
  · exact relaxed_eq_self hb hdemanded ▸ hrelaxed
  · exact subtypeOf_of_fits (wellFormed_relaxed hb) hb (relaxed_fits hb)

/-- The supertype leaves the note of an order optional, so its values may have a number there. -/
theorem conforms_relaxed_of_subtypeOf_order :
    let line : Ty := .object [("qty", .mandatory integer)] false
    let a : Ty := .object [("lines", .mandatory (array line)), ("note", .mandatory integer)] false
    let b : Ty := .object [("lines", .mandatory (array (union [.openObject, null]))),
      ("note", .optional string)] false
    let v : Json := .object [("lines", .array [.object [("qty", .int 2)]]), ("note", .int 7)]
    a.subtypeOf b = true ∧ Conforms v a ∧ Conforms v b.relaxed := by
  intro line a b v
  have hsub : a.subtypeOf b = true := by decide +kernel
  have hv : Conforms v a := by decide
  exact ⟨hsub, hv, (conforms_relaxed_of_subtypeOf (by decide) (by decide) hsub hv).1⟩

/-- A property that the supertype leaves optional may have a value of the wrong type. -/
theorem subtypeOf_not_sound_for_optional :
    let a : Ty := .object [("x", .mandatory integer)] false
    let b : Ty := .object [("x", .optional string)] false
    let v : Json := .object [("x", .int 1)]
    (a.WellFormed ∧ a.IsData ∧ b.WellFormed ∧ b.IsData) ∧ a.subtypeOf b = true ∧
      Conforms v a ∧ ¬ Conforms v b := by
  intro a b v
  exact ⟨by decide, by decide +kernel, by decide, by decide⟩

end SchemaInfer.Ty
