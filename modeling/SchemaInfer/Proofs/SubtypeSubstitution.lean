import SchemaInfer.Proofs.Substitution

/-!
# Subtyping under substitution

Putting types for the variables of two types keeps the one a subtype of the other, wherever the variables
stand. The induction is on the subtype rules. A variable fits itself only, so both sides get the same type
for it. Unions are built anew by a substitution: members may fall together, or be unions themselves by
then, and a union may come down to one type. What a union fits and what fits a union is known from its
members alone (`oneOf_fits_iff`, `fits_oneOf`), so none of this matters.
-/

namespace SchemaInfer.Ty

variable {a b : Ty} {ps : Properties} {σ : Assignment}

theorem lookup_substProperties {name : String} : (substProperties σ ps).lookup name =
    (ps.lookup name).map fun p => { p with ty := p.ty.subst σ } := by
  induction ps with
  | nil => rfl
  | cons entry ps ih =>
    obtain ⟨key, p⟩ := entry
    rw [substProperties, List.lookup_cons, List.lookup_cons]
    cases name == key with
    | true => rfl
    | false => exact ih

theorem fits_subst (ha : a.WellFormed) (hb : b.WellFormed) (hσ : Entries.All WellFormed σ)
    (h : Fits a b) : Fits (a.subst σ) (b.subst σ) := by
  induction h with
  | any => exact .any
  | primitive _ | var => exact .refl (wellFormed_subst ha hσ)
  | integer => exact .integer
  | array _ ih => exact .array (ih (WellFormed.array_iff.mp ha) (WellFormed.array_iff.mp hb))
  | object hopen hfound _ ih =>
    obtain ⟨_, hps⟩ := WellFormed.object_iff.mp ha
    obtain ⟨_, hqs⟩ := WellFormed.object_iff.mp hb
    rw [subst, subst]
    refine .object ?_ ?_ ?_
    · rw [keys_substProperties, keys_substProperties]
      exact hopen
    · intro name q' hq' hdemanded
      obtain ⟨q, hq, rfl⟩ := mem_substProperties.mp hq'
      obtain ⟨p, hp, hpdemanded⟩ := hfound name q hq hdemanded
      refine ⟨{ p with ty := p.ty.subst σ }, ?_, hpdemanded⟩
      rw [lookup_substProperties, hp, Option.map_some]
    · intro name p' q' hp' hq' hdemanded
      obtain ⟨q, hq, rfl⟩ := mem_substProperties.mp hq'
      rw [lookup_substProperties] at hp'
      obtain ⟨p, hp, rfl⟩ := Option.map_eq_some_iff.mp hp'
      exact ih name p q hp hq hdemanded (hps name p (Entries.mem_of_lookup hp)) (hqs name q hq)
  | @function params₁ params₂ r s hlength _ _ ihparams ihr =>
    obtain ⟨hwf₁, hwfr⟩ := WellFormed.function_iff.mp ha
    obtain ⟨hwf₂, hwfs⟩ := WellFormed.function_iff.mp hb
    rw [subst, subst, substAll_eq_map, substAll_eq_map]
    refine .function ?_ ?_ (ihr hwfr hwfs)
    · rw [List.length_map, List.length_map, hlength]
    · intro p' q' hmem
      rw [List.zip_map, List.mem_map] at hmem
      obtain ⟨⟨p, q⟩, hpq, heq⟩ := hmem
      obtain ⟨rfl, rfl⟩ := Prod.mk.inj heq
      obtain ⟨hp, hq⟩ := List.of_mem_zip hpq
      exact ihparams p q hpq (hwf₂ q hq) (hwf₁ p hp)
  | @unionLeft ms b _ ih =>
    obtain ⟨hlength, _, _, hms⟩ := WellFormed.union_iff.mp ha
    have hne : ms.map (subst σ) ≠ [] := by
      intro hnil
      rw [List.map_eq_nil_iff.mp hnil] at hlength
      cases hlength
    have hwf : ∀ t ∈ ms.map (subst σ), t.WellFormed :=
      List.forall_mem_map.mpr fun m hm => wellFormed_subst (hms m hm) hσ
    rw [subst, substAll_eq_map]
    apply (oneOf_fits_iff hne hwf).mpr
    exact List.forall_mem_map.mpr fun m hm => ih m hm (hms m hm) hb
  | @unionRight n a ns hn _ ih =>
    obtain ⟨_, _, _, hns⟩ := WellFormed.union_iff.mp hb
    have hwf : ∀ t ∈ ns.map (subst σ), t.WellFormed :=
      List.forall_mem_map.mpr fun n hn => wellFormed_subst (hns n hn) hσ
    rw [subst, substAll_eq_map]
    exact (ih ha (hns n hn)).trans (fits_oneOf hwf (List.mem_map_of_mem hn))

/-- **Substitution keeps subtypes.** If a well-formed type is a subtype of another, it still is one after
well-formed types have been put for the variables of both. -/
theorem subtypeOf_subst (ha : a.WellFormed) (hb : b.WellFormed) (hσ : Entries.All WellFormed σ)
    (h : a.subtypeOf b = true) : (a.subst σ).subtypeOf (b.subst σ) = true := by
  have hfits : Fits a b := (subtypeOf_iff_fits ha hb).mp h
  apply (subtypeOf_iff_fits (wellFormed_subst ha hσ) (wellFormed_subst hb hσ)).mpr
  exact fits_subst ha hb hσ hfits

/-- A nullable type for a variable that stands beside null in the parameter of a function, and as a member
of its own on the right. -/
theorem subtypeOf_subst_of_nullable :
    let a : Ty := function [union [var "T", null]] (array (var "T"))
    let b : Ty := union [var "U", function [var "T"] (union [array (var "T"), var "U"])]
    let σ : Assignment := [("T", union [integer, null]), ("U", null)]
    a.WellFormed ∧ b.WellFormed ∧ Entries.All WellFormed σ ∧ a.subtypeOf b = true ∧
      a.subst σ = function [union [integer, null]] (array (union [integer, null])) ∧
      b.subst σ = union [null, function [union [integer, null]]
        (union [array (union [integer, null]), null])] ∧
      (a.subst σ).subtypeOf (b.subst σ) = true := by
  intro a b σ
  have ha : a.WellFormed := by decide
  have hb : b.WellFormed := by decide
  have hσ : Entries.All WellFormed σ := by decide
  have hsub : a.subtypeOf b = true := by
    refine subtypeOf_of_fits ha hb ?_
    refine .unionRight (List.mem_cons_of_mem _ List.mem_cons_self) (.function rfl ?_ ?_)
    · intro p q hmem
      cases List.mem_singleton.mp hmem
      exact .unionRight List.mem_cons_self .var
    · exact .unionRight List.mem_cons_self (.array .var)
  exact ⟨ha, hb, hσ, hsub, rfl, rfl, subtypeOf_subst ha hb hσ hsub⟩

end SchemaInfer.Ty
