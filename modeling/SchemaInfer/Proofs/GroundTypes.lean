import SchemaInfer.Proofs.SubtypeSubstitution

/-!
# Ground types

`Ty.ground` puts the assigned types for the variables of a type and then `any` for all variables that are
left, be they variables of the type itself or brought in by the assigned types. So no variable is left, and
the second round changes nothing where the first left none. Without functions, in which a parameter would
turn the direction around, the outcome grows with the assigned types: the first round does, by induction on
the type, and the second is a substitution of its own, the same on both sides once it covers the variables
of both.
-/

namespace SchemaInfer

/-- Both assign types to the same variables, the second to each a supertype of what the first does. -/
def Assignment.Widens (σ σ' : Assignment) : Prop :=
  ∀ name, Option.Rel (fun s s' => s.subtypeOf s' = true) (σ.lookup name) (σ'.lookup name)

namespace Ty

variable {t : Ty} {ps : Properties} {σ σ' : Assignment} {name : String} {names : List String}

/-! ### The second round -/

/-- The second round may cover more variables than are left. -/
theorem ground_eq_subst_anyFor (hwf : (t.subst σ).WellFormed)
    (hnames : ∀ name ∈ (t.subst σ).vars, name ∈ names) :
    t.ground σ = (t.subst σ).subst (anyFor names) := by
  by_cases hclosed : (t.subst σ).Closed
  · rw [ground_eq_subst hclosed, subst_of_closed hwf hclosed]
  · have hvar : (t.subst σ).hasVar = true := by
      rw [← Bool.not_eq_false, hasVar_eq_false_iff]
      exact hclosed
    rw [ground, hvar, if_pos rfl]
    refine subst_congr fun name hname => ?_
    rw [lookup_anyFor hname, lookup_anyFor (hnames name hname)]

/-! ### Wider assignments -/

theorem fits_substProperties {isOpen : Bool} (hkeys : (Entries.keys ps).Nodup)
    (h : ∀ name p, (name, p) ∈ ps → Fits (p.ty.subst σ) (p.ty.subst σ')) :
    Fits (object (substProperties σ ps) isOpen) (object (substProperties σ' ps) isOpen) := by
  refine fits_object_of_same_keys (fun name => ?_) fun name p' q' hp' hq' hdemanded => ?_
  · rw [keys_substProperties, keys_substProperties]
  · obtain ⟨p, hp, rfl⟩ := mem_substProperties.mp (Entries.mem_of_lookup hp')
    obtain ⟨q, hq, rfl⟩ := mem_substProperties.mp hq'
    obtain rfl := Entries.eq_of_mem hkeys hp hq
    exact ⟨hdemanded, h name p hp⟩

/-- Without functions, substitution grows with the assigned types. -/
theorem fits_subst_of_widens (ht : t.WellFormed) (hfunction : t.Everywhere fun s => s.isFunction = false)
    (hσ : Entries.All WellFormed σ) (hσ' : Entries.All WellFormed σ') (h : σ.Widens σ') :
    Fits (t.subst σ) (t.subst σ') := by
  induction t with
  | string | number | integer | boolean | null | any => exact .primitive rfl
  | var name =>
    have hname := h name
    rw [subst, subst]
    cases hlookup : σ.lookup name <;> cases hlookup' : σ'.lookup name <;>
      rw [hlookup, hlookup'] at hname <;> cases hname
    · exact .var
    · rename_i hsub
      exact fits_of_subtypeOf (hσ.lookup hlookup) (hσ'.lookup hlookup') hsub
  | array t ih =>
    exact .array (ih (WellFormed.array_iff.mp ht) (Everywhere.array_iff.mp hfunction).2)
  | object ps isOpen ih =>
    obtain ⟨hkeys, hps⟩ := WellFormed.object_iff.mp ht
    obtain ⟨_, hfunctions⟩ := Everywhere.object_iff.mp hfunction
    exact fits_substProperties hkeys fun name p hp => ih name p hp (hps name p hp) (hfunctions name p hp)
  | union ms ih =>
    obtain ⟨hlength, _, _, hms⟩ := WellFormed.union_iff.mp ht
    obtain ⟨_, hfunctions⟩ := Everywhere.union_iff.mp hfunction
    have hne : ms.map (subst σ) ≠ [] := by
      rw [Ne, List.map_eq_nil_iff]
      rintro rfl
      cases hlength
    have hwf : ∀ {σ : Assignment}, Entries.All WellFormed σ → ∀ s ∈ ms.map (subst σ), s.WellFormed :=
      fun hσ => List.forall_mem_map.mpr fun m hm => wellFormed_subst (hms m hm) hσ
    -- members may fall together on either side; what counts is that each fits its own image
    rw [subst, subst, substAll_eq_map, substAll_eq_map, oneOf_fits_iff hne (hwf hσ)]
    refine List.forall_mem_map.mpr fun m hm => ?_
    exact (ih m hm (hms m hm) (hfunctions m hm)).trans
      (fits_oneOf (hwf hσ') (List.mem_map_of_mem hm))
  | function params r _ _ => cases hfunction.head

theorem fits_ground_of_widens (ht : t.WellFormed)
    (hfunction : t.Everywhere fun s => s.isFunction = false) (hσ : Entries.All WellFormed σ)
    (hσ' : Entries.All WellFormed σ') (h : σ.Widens σ') : Fits (t.ground σ) (t.ground σ') := by
  have hwf := wellFormed_subst ht hσ
  have hwf' := wellFormed_subst ht hσ'
  -- one second round that serves both sides
  have hnames : t.ground σ = (t.subst σ).subst (anyFor ((t.subst σ).vars ++ (t.subst σ').vars)) :=
    ground_eq_subst_anyFor hwf fun _ hname => List.mem_append_left _ hname
  have hnames' : t.ground σ' = (t.subst σ').subst (anyFor ((t.subst σ).vars ++ (t.subst σ').vars)) :=
    ground_eq_subst_anyFor hwf' fun _ hname => List.mem_append_right _ hname
  rw [hnames, hnames']
  apply fits_subst hwf hwf' (all_anyFor (.of_isPrimitive rfl) _)
  exact fits_subst_of_widens ht hfunction hσ hσ' h

/-- **Grounding a type.** Whatever is assigned, types with variables included, no variable is left. If
substitution alone leaves none, grounding is substitution. And a type without functions has a supertype for
its outcome if supertypes are assigned to the same variables. -/
theorem ground_closed_and_monotone (ht : t.WellFormed) (σ : Assignment) :
    (t.ground σ).Closed ∧ ((t.subst σ).Closed → t.ground σ = t.subst σ) ∧
      ∀ σ', Entries.All WellFormed σ → Entries.All WellFormed σ' →
        (t.Everywhere fun s => s.isFunction = false) → σ.Widens σ' →
        (t.ground σ).subtypeOf (t.ground σ') = true := by
  refine ⟨closed_ground σ t, ground_eq_subst, fun σ' hσ hσ' hfunction hwidens => ?_⟩
  have hfits := fits_ground_of_widens ht hfunction hσ hσ' hwidens
  exact subtypeOf_of_fits (wellFormed_ground ht hσ) (wellFormed_ground ht hσ') hfits

/-- A union in which the wider assignment makes members fall together, a variable without an assignment,
and a variable assigned to a type in which it stands itself. -/
theorem ground_closed_and_monotone_of_collapse :
    let rows : Ty → Ty := fun t => object [("rows", .mandatory (array t))] true
    let t : Ty := union [var "T", number, rows (var "W")]
    let σ : Assignment := [("T", integer)]
    let σ' : Assignment := [("T", union [number, null])]
    let loop : Assignment := [("T", array (var "T"))]
    t.WellFormed ∧ Entries.All WellFormed σ ∧ Entries.All WellFormed σ' ∧
      (t.Everywhere fun s => s.isFunction = false) ∧ σ.Widens σ' ∧
      t.ground σ = union [integer, number, rows any] ∧
      t.ground σ' = union [number, null, rows any] ∧
      (t.ground σ).subtypeOf (t.ground σ') = true ∧
      t.ground loop = union [array any, number, rows any] ∧ (t.ground loop).Closed := by
  intro rows t σ σ' loop
  have ht : t.WellFormed := by decide
  have hσ : Entries.All WellFormed σ := by decide
  have hσ' : Entries.All WellFormed σ' := by decide
  have hfunction : t.Everywhere fun s => s.isFunction = false := by decide
  have hwidens : σ.Widens σ' := by
    intro name
    simp only [σ, σ', List.lookup_cons, List.lookup_nil]
    cases name == "T" with
    | true => exact .some (by cbv)
    | false => exact .none
  obtain ⟨_, _, hmonotone⟩ := ground_closed_and_monotone ht σ
  obtain ⟨hclosed, _, _⟩ := ground_closed_and_monotone ht loop
  exact ⟨ht, hσ, hσ', hfunction, hwidens, rfl, rfl, hmonotone σ' hσ hσ' hfunction hwidens, rfl, hclosed⟩

end Ty

end SchemaInfer
