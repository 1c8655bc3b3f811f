import SchemaInfer.Proofs.ClosedInference

/-!
# Putting types for variables

What a type becomes when types are put for its variables: it stays well-formed, it depends on its own
variables only, and a closed type is left alone. In the second round of `Ty.ground` the variables that
are left become `any`. This only makes a type wider, as long as variables do not stand in parameters of
functions: what fits the type before the second round and has no function in it fits the type after it.
-/

namespace SchemaInfer.Ty

variable {a t : Ty} {ts : List Ty} {ps : Properties} {σ σ' : Assignment}

/-! ### Properties -/

theorem keys_substProperties : Entries.keys (substProperties σ ps) = Entries.keys ps := by
  simp [substProperties_eq_map, Entries.keys, Function.comp_def]

theorem mem_substProperties {name : String} {q : Property Ty} :
    (name, q) ∈ substProperties σ ps ↔
      ∃ p, (name, p) ∈ ps ∧ q = { p with ty := p.ty.subst σ } := by
  simp only [substProperties_eq_map, List.mem_map, Prod.exists, Prod.mk.injEq]
  constructor
  · rintro ⟨_, p, hp, rfl, rfl⟩
    exact ⟨p, hp, rfl⟩
  · rintro ⟨p, hp, rfl⟩
    exact ⟨name, p, hp, rfl, rfl⟩

/-! ### Well-formed types -/

theorem wellFormed_subst (ht : t.WellFormed) (hσ : Entries.All WellFormed σ) :
    (t.subst σ).WellFormed := by
  induction t with
  | string | number | integer | boolean | null | any => exact .of_isPrimitive rfl
  | var name =>
    rw [subst]
    cases hlookup : σ.lookup name with
    | none => exact ht
    | some s => exact hσ.lookup hlookup
  | array t ih => exact WellFormed.array_iff.mpr (ih (WellFormed.array_iff.mp ht))
  | object ps isOpen ih =>
    obtain ⟨hkeys, hps⟩ := WellFormed.object_iff.mp ht
    rw [subst, WellFormed.object_iff, keys_substProperties]
    refine ⟨hkeys, fun name q hq => ?_⟩
    obtain ⟨p, hp, rfl⟩ := mem_substProperties.mp hq
    exact ih name p hp (hps name p hp)
  | union ms ih =>
    obtain ⟨_, _, _, hms⟩ := WellFormed.union_iff.mp ht
    rw [subst, substAll_eq_map]
    exact wellFormed_oneOf (List.forall_mem_map.mpr fun m hm => ih m hm (hms m hm))
  | function params r ihparams ihr =>
    obtain ⟨hparams, hr⟩ := WellFormed.function_iff.mp ht
    rw [subst, WellFormed.function_iff, substAll_eq_map]
    exact ⟨List.forall_mem_map.mpr fun p hp => ihparams p hp (hparams p hp), ihr hr⟩

theorem all_anyFor {P : Ty → Prop} (hany : P any) (names : List String) :
    Entries.All P (anyFor names) := by
  intro name s hs
  obtain ⟨_, _, heq⟩ := List.mem_map.mp hs
  exact (Prod.mk.inj heq).2 ▸ hany

theorem wellFormed_ground (ht : t.WellFormed) (hσ : Entries.All WellFormed σ) :
    (t.ground σ).WellFormed := by
  have hsubst := wellFormed_subst ht hσ
  unfold ground
  dsimp only
  split
  · exact wellFormed_subst hsubst (all_anyFor (.of_isPrimitive rfl) _)
  · exact hsubst

/-! ### Which variables count -/

theorem subst_congr (h : ∀ name ∈ t.vars, σ.lookup name = σ'.lookup name) :
    t.subst σ = t.subst σ' := by
  induction t with
  | string | number | integer | boolean | null | any => rfl
  | var name => rw [subst, subst, h name (List.mem_singleton_self name)]
  | array t ih => rw [subst, subst, ih h]
  | object ps isOpen ih =>
    rw [vars, propertyVars_eq_flatMap] at h
    rw [subst, subst, substProperties_eq_map, substProperties_eq_map]
    congr 1
    refine List.map_congr_left fun entry hentry => ?_
    rw [ih entry.1 entry.2 hentry fun name hname => h name (List.mem_flatMap.mpr ⟨_, hentry, hname⟩)]
  | union ms ih =>
    rw [vars, varsAll_eq_flatMap] at h
    rw [subst, subst, substAll_eq_map, substAll_eq_map]
    congr 1
    exact List.map_congr_left fun m hm =>
      ih m hm fun name hname => h name (List.mem_flatMap.mpr ⟨m, hm, hname⟩)
  | function params r ihparams ihr =>
    rw [vars, varsAll_eq_flatMap] at h
    rw [subst, subst, substAll_eq_map, substAll_eq_map]
    congr 1
    · refine List.map_congr_left fun p hp => ihparams p hp fun name hname => h name ?_
      exact List.mem_append_left _ (List.mem_flatMap.mpr ⟨p, hp, hname⟩)
    · exact ihr fun name hname => h name (List.mem_append_right _ hname)

theorem ground_congr (h : ∀ name ∈ t.vars, σ.lookup name = σ'.lookup name) :
    t.ground σ = t.ground σ' := by
  rw [ground, ground, subst_congr h]

theorem vars_eq_nil (hclosed : t.Closed) : t.vars = [] := by
  induction t with
  | string | number | integer | boolean | null | any => rfl
  | var name => exact absurd hclosed Closed.not_var
  | array t ih => exact ih (Closed.array_iff.mp hclosed)
  | object ps isOpen ih =>
    rw [vars, propertyVars_eq_flatMap, List.flatMap_eq_nil_iff]
    exact fun entry hentry => ih _ _ hentry (Closed.object_iff.mp hclosed _ _ hentry)
  | union ms ih =>
    rw [vars, varsAll_eq_flatMap, List.flatMap_eq_nil_iff]
    exact fun m hm => ih m hm (Closed.union_iff.mp hclosed m hm)
  | function params r ihparams ihr =>
    obtain ⟨hparams, hr⟩ := Closed.function_iff.mp hclosed
    rw [vars, varsAll_eq_flatMap, ihr hr, List.append_nil, List.flatMap_eq_nil_iff]
    exact fun p hp => ihparams p hp (hparams p hp)

theorem subst_nil (ht : t.WellFormed) : t.subst [] = t := by
  induction t with
  | string | number | integer | boolean | null | any | var _ => rfl
  | array t ih => rw [subst, ih (WellFormed.array_iff.mp ht)]
  | object ps isOpen ih =>
    obtain ⟨_, hps⟩ := WellFormed.object_iff.mp ht
    rw [subst, substProperties_eq_map]
    congr 1
    refine (List.map_congr_left fun entry hentry => ?_).trans (List.map_id ps)
    rw [ih _ _ hentry (hps _ _ hentry)]
    rfl
  | union ms ih =>
    obtain ⟨_, _, _, hms⟩ := WellFormed.union_iff.mp ht
    have hself : ms.map (subst []) = ms :=
      (List.map_congr_left fun m hm => ih m hm (hms m hm)).trans (List.map_id ms)
    rw [subst, substAll_eq_map, hself, oneOf_eq_union ht]
  | function params r ihparams ihr =>
    obtain ⟨hparams, hr⟩ := WellFormed.function_iff.mp ht
    rw [subst, substAll_eq_map, ihr hr]
    congr 1
    exact (List.map_congr_left fun p hp => ihparams p hp (hparams p hp)).trans (List.map_id params)

theorem subst_of_closed (ht : t.WellFormed) (hclosed : t.Closed) : t.subst σ = t := by
  have hagree : ∀ name ∈ t.vars, σ.lookup name = List.lookup name [] := by
    simp [vars_eq_nil hclosed]
  rw [subst_congr hagree, subst_nil ht]

theorem ground_eq_subst (h : (t.subst σ).Closed) : t.ground σ = t.subst σ := by
  rw [ground, hasVar_eq_false_iff.mpr h]
  rfl

theorem ground_of_closed (ht : t.WellFormed) (hclosed : t.Closed) : t.ground σ = t := by
  have hself : t.subst σ = t := subst_of_closed ht hclosed
  rw [ground_eq_subst (hself.symm ▸ hclosed), hself]

theorem ground_array : (array t).ground σ = array (t.ground σ) := by
  simp only [ground, subst, hasVar, vars]
  split <;> rfl

theorem ground_var {name : String} {s : Ty} (hlookup : σ.lookup name = some s) (hs : s.Closed) :
    (var name).ground σ = s := by
  rw [ground, subst, hlookup, Option.getD_some, hasVar_eq_false_iff.mpr hs]
  rfl

/-! ### Widening to any -/

theorem fits_subst_anyFor {names : List String} (ht : t.WellFormed)
    (ha : a.Everywhere fun s => s.isFunction = false) (h : Fits a t) :
    Fits a (t.subst (anyFor names)) := by
  have hanys : Entries.All WellFormed (anyFor names) := all_anyFor (.of_isPrimitive rfl) names
  induction h with
  | any => exact .any
  | @primitive a hprimitive =>
    cases a with
    | string | number | integer | boolean | null | any => exact .primitive hprimitive
    | _ => cases hprimitive
  | @var name =>
    rw [subst]
    cases hlookup : (anyFor names).lookup name with
    | none => exact .var
    | some s =>
      have hs : any = s := (all_anyFor rfl names).lookup hlookup
      exact hs ▸ .any
  | integer => exact .integer
  | array _ ih => exact .array (ih (WellFormed.array_iff.mp ht) (Everywhere.array_iff.mp ha).2)
  | object hopen hfound _ ih =>
    obtain ⟨_, hqs⟩ := WellFormed.object_iff.mp ht
    obtain ⟨_, hps⟩ := Everywhere.object_iff.mp ha
    rw [subst]
    refine .object ?_ ?_ ?_
    · rw [keys_substProperties]
      exact hopen
    · intro name q' hq' hdemanded
      obtain ⟨q, hq, rfl⟩ := mem_substProperties.mp hq'
      exact hfound name q hq hdemanded
    · intro name p q' hp hq' hdemanded
      obtain ⟨q, hq, rfl⟩ := mem_substProperties.mp hq'
      exact ih name p q hp hq hdemanded (hqs name q hq) (hps name p (Entries.mem_of_lookup hp))
  | function => cases ha.head
  | unionLeft _ ih => exact .unionLeft fun m hm => ih m hm ht ((Everywhere.union_iff.mp ha).2 m hm)
  | @unionRight n _ ns hn _ ih =>
    obtain ⟨_, _, _, hns⟩ := WellFormed.union_iff.mp ht
    rw [subst, substAll_eq_map]
    refine (ih (hns n hn) ha).trans (fits_oneOf ?_ (List.mem_map_of_mem hn))
    exact List.forall_mem_map.mpr fun m hm => wellFormed_subst (hns m hm) hanys

theorem fits_ground_of_fits_subst (ht : t.WellFormed) (hσ : Entries.All WellFormed σ)
    (ha : a.Everywhere fun s => s.isFunction = false) (h : Fits a (t.subst σ)) :
    Fits a (t.ground σ) := by
  unfold ground
  dsimp only
  split
  · exact fits_subst_anyFor (wellFormed_subst ht hσ) ha h
  · exact h

end SchemaInfer.Ty
