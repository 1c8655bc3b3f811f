import SchemaInfer.JsonSchema.Import
import SchemaInfer.Proofs.Plans

/-!
# Conversion up to references

What a JSON Schema means depends on the rest of its document through its references. Conversions that resolve
these in corresponding ways correspond (`convert_corresponds`); the proof follows the keywords through which
the conversion comes to the parts of a schema. So a schema has a plan, which is its conversion in the monad
that stops at each reference. Answering the plan is converting the schema (`answer_plan`), and it asks for
references of the schema only (`plan_within`). Where a schema stands shows in errors only (`convert_mono`).
-/

namespace SchemaInfer.JsonSchema

/-! ### The references of a part -/

theorem append_subset_referencesOfEntries_cons {key : String} {value : Json}
    {entries : List (String × Json)} :
    references value ++ referencesOfEntries entries ⊆ referencesOfEntries ((key, value) :: entries) := by
  rw [referencesOfEntries.eq_def ((key, value) :: entries)]
  dsimp only
  rw [List.append_assoc]
  exact List.subset_append_right _ _

theorem references_subset_of_mem_entries {key : String} {value : Json}
    {entries : List (String × Json)} (h : (key, value) ∈ entries) :
    references value ⊆ referencesOfEntries entries := by
  induction entries with
  | nil => cases h
  | cons entry entries ih =>
    refine List.Subset.trans ?_ append_subset_referencesOfEntries_cons
    rcases List.mem_cons.mp h with heq | h
    · cases heq
      exact List.subset_append_left _ _
    · exact List.Subset.trans (ih h) (List.subset_append_right _ _)

theorem references_subset_of_lookup {key : String} {value : Json} {entries : List (String × Json)}
    (h : entries.lookup key = some value) : references value ⊆ referencesOfEntries entries :=
  references_subset_of_mem_entries (Entries.mem_of_lookup h)

theorem mem_referencesOfEntries {reference : String} {entries : List (String × Json)}
    (h : ("$ref", .string reference) ∈ entries) : reference ∈ referencesOfEntries entries := by
  induction entries with
  | nil => cases h
  | cons entry entries ih =>
    rcases List.mem_cons.mp h with heq | h
    · cases heq
      rw [referencesOfEntries]
      exact List.mem_cons_self
    · exact append_subset_referencesOfEntries_cons (List.mem_append_right _ (ih h))

/-! ### Corresponding conversions -/

section Corresponds

variable {m n : Type → Type} [Monad m] [Monad n] [MonadExceptOf ImportError m]
  [MonadExceptOf ImportError n] (R : Correspondence m n)

/-- Some references are resolved in corresponding ways. -/
def Resolves (deref : String → m Ty) (deref' : String → n Ty) (references : List String) : Prop :=
  ∀ reference ∈ references, R.Rel (deref reference) (deref' reference)

variable {R} {deref : String → m Ty} {deref' : String → n Ty}

theorem Resolves.mono {refs refs' : List String} (h : Resolves R deref deref' refs)
    (hsub : refs' ⊆ refs) : Resolves R deref deref' refs' :=
  fun reference hmem => h reference (hsub hmem)

mutual

/-- Conversions correspond if the references of the schema are resolved in corresponding ways. -/
theorem convert_corresponds {path path' : String} (hpath : R.SamePlace path path') (schema : Json)
    (h : Resolves R deref deref' (references schema)) :
    R.Rel (convert deref path schema) (convert deref' path' schema) := by
  cases schema with
  | object entries =>
    rw [references] at h
    rw [convert, convert]
    exact R.bind (convertBody_corresponds hpath entries h) fun ty => R.pure _
  | bool admits =>
    cases admits with
    | true =>
      rw [convert, convert]
      exact R.pure _
    | false =>
      rw [convert, convert]
      exact hpath.unsupported _
  | _ =>
    rw [convert, convert]
    · exact hpath.malformed _
    all_goals simp
termination_by (sizeOf schema, 0)

theorem convertBody_corresponds {path path' : String} (hpath : R.SamePlace path path')
    (entries : List (String × Json)) (h : Resolves R deref deref' (referencesOfEntries entries)) :
    R.Rel (convertBody deref path entries) (convertBody deref' path' entries) := by
  rw [convertBody, convertBody]
  split
  · rename_i reference href
    exact h reference (mem_referencesOfEntries (Entries.mem_of_lookup href))
  · exact (hpath.append _).malformed _
  · exact convertInline_corresponds hpath entries h
termination_by (sizeOf entries, 5)

theorem convertInline_corresponds {path path' : String} (hpath : R.SamePlace path path')
    (entries : List (String × Json)) (h : Resolves R deref deref' (referencesOfEntries entries)) :
    R.Rel (convertInline deref path entries) (convertInline deref' path' entries) := by
  rw [convertInline, convertInline]
  split
  · exact R.pure _
  · exact (hpath.append _).unsupported _
  · exact R.pure _
  · exact (hpath.append _).malformed _
  · refine R.bind (convertTyped_corresponds hpath entries h) fun own => ?_
    refine R.bind (convertCombinator_corresponds hpath _ entries h) fun parts => ?_
    exact convertAlternatives_corresponds hpath _ entries h
termination_by (sizeOf entries, 4)

theorem convertAlternatives_corresponds {path path' : String} (hpath : R.SamePlace path path')
    (base : Ty) (entries : List (String × Json))
    (h : Resolves R deref deref' (referencesOfEntries entries)) :
    R.Rel (convertAlternatives deref path base entries)
      (convertAlternatives deref' path' base entries) := by
  rw [convertAlternatives, convertAlternatives]
  refine R.bind (convertCombinator_corresponds hpath _ entries h) fun parts => ?_
  cases parts with
  | some parts => exact R.pure _
  | none =>
    refine R.bind (convertCombinator_corresponds hpath _ entries h) fun parts => ?_
    cases parts with
    | some parts => exact R.pure _
    | none => exact R.pure _
termination_by (sizeOf entries, 1)

theorem convertCombinator_corresponds {path path' : String} (hpath : R.SamePlace path path')
    (keyword : String) (entries : List (String × Json))
    (h : Resolves R deref deref' (referencesOfEntries entries)) :
    R.Rel (convertCombinator deref path keyword entries)
      (convertCombinator deref' path' keyword entries) := by
  rw [convertCombinator, convertCombinator]
  split
  · rename_i branches hlookup
    refine R.bind ?_ fun parts => R.pure _
    exact convertBranches_corresponds ((hpath.append _).append _) branches
      (h.mono (references_subset_of_lookup hlookup))
  · exact R.pure _
termination_by (sizeOf entries, 0)
decreasing_by exact .left _ _ (Entries.sizeOf_lt_of_lookup ‹_›)

theorem convertTyped_corresponds {path path' : String} (hpath : R.SamePlace path path')
    (entries : List (String × Json)) (h : Resolves R deref deref' (referencesOfEntries entries)) :
    R.Rel (convertTyped deref path entries) (convertTyped deref' path' entries) := by
  rw [convertTyped, convertTyped]
  split
  · exact convertNamed_corresponds hpath entries _ h
  · refine R.bind (R.mapM fun name _ => ?_) fun types => R.pure _
    cases name with
    | string name => exact convertNamed_corresponds hpath entries name h
    | _ => exact (hpath.append _).malformed _
  · exact (hpath.append _).malformed _
  · split
    · exact convertObject_corresponds hpath entries h
    · split
      · exact convertArray_corresponds hpath entries h
      · exact R.pure _
termination_by (sizeOf entries, 3)

theorem convertNamed_corresponds {path path' : String} (hpath : R.SamePlace path path')
    (entries : List (String × Json)) (name : String)
    (h : Resolves R deref deref' (referencesOfEntries entries)) :
    R.Rel (convertNamed deref path entries name) (convertNamed deref' path' entries name) := by
  rw [convertNamed.eq_def, convertNamed.eq_def]
  split
  · exact R.pure _
  · exact R.pure _
  · exact R.pure _
  · exact R.pure _
  · exact R.pure _
  · exact convertArray_corresponds hpath entries h
  · exact convertObject_corresponds hpath entries h
  · exact R.throw (by simp) fun _ => rfl
termination_by (sizeOf entries, 2)

theorem convertObject_corresponds {path path' : String} (hpath : R.SamePlace path path')
    (entries : List (String × Json)) (h : Resolves R deref deref' (referencesOfEntries entries)) :
    R.Rel (convertObject deref path entries) (convertObject deref' path' entries) := by
  rw [convertObject, convertObject]
  refine R.bind ?_ fun properties => R.pure _
  rw [convertDeclared, convertDeclared]
  split
  · rename_i schemas hlookup
    exact convertProperties_corresponds (hpath.append _) _ schemas
      (h.mono (references_subset_of_lookup hlookup))
  · exact R.pure _
termination_by (sizeOf entries, 1)
decreasing_by exact .left _ _ (sizeOf_entries_lt ‹_›)

theorem convertProperties_corresponds {path path' : String} (hpath : R.SamePlace path path')
    (required : List String) (schemas : List (String × Json))
    (h : Resolves R deref deref' (referencesOfEntries schemas)) :
    R.Rel (convertProperties deref path required schemas)
      (convertProperties deref' path' required schemas) := by
  match schemas, h with
  | [], _ =>
    rw [convertProperties, convertProperties]
    exact R.pure _
  | (name, schema) :: others, h =>
    obtain ⟨hschema, hothers⟩ := List.append_subset.mp append_subset_referencesOfEntries_cons
    rw [convertProperties, convertProperties]
    refine R.bind (convert_corresponds (hpath.append _) schema (h.mono hschema)) fun ty => ?_
    refine R.bind (convertProperties_corresponds hpath required others (h.mono hothers)) ?_
    exact fun properties => R.pure _
termination_by (sizeOf schemas, 0)

theorem convertArray_corresponds {path path' : String} (hpath : R.SamePlace path path')
    (entries : List (String × Json)) (h : Resolves R deref deref' (referencesOfEntries entries)) :
    R.Rel (convertArray deref path entries) (convertArray deref' path' entries) := by
  rw [convertArray, convertArray]
  refine R.bind ?_ fun positions => R.bind ?_ fun others => R.pure _
  · rw [convertPositions, convertPositions]
    split
    · rename_i schemas hlookup
      exact convertItems_corresponds (hpath.append _) 0 schemas
        (h.mono (references_subset_of_lookup hlookup))
    · exact R.pure _
  · rw [convertOthers, convertOthers]
    split
    · rename_i schemas hlookup
      exact convertItems_corresponds (hpath.append _) 0 schemas
        (h.mono (references_subset_of_lookup hlookup))
    · exact R.pure _
    · exact R.pure _
    · rename_i schema _ _ hlookup
      have hschema := h.mono (references_subset_of_lookup hlookup)
      exact R.bind (convert_corresponds (hpath.append _) schema hschema) fun ty => R.pure _
termination_by (sizeOf entries, 1)
decreasing_by
  · exact .left _ _ (sizeOf_items_lt ‹entries.lookup "prefixItems" = _›)
  · exact .left _ _ (sizeOf_items_lt ‹entries.lookup "items" = _›)
  · exact .left _ _ (Entries.sizeOf_lt_of_lookup ‹entries.lookup "items" = _›)

theorem convertItems_corresponds {path path' : String} (hpath : R.SamePlace path path')
    (position : Nat) (schemas : List Json) (h : Resolves R deref deref' (referencesOfItems schemas)) :
    R.Rel (convertItems deref path position schemas) (convertItems deref' path' position schemas) := by
  cases schemas with
  | nil =>
    rw [convertItems, convertItems]
    exact R.pure _
  | cons schema others =>
    rw [referencesOfItems] at h
    rw [convertItems, convertItems]
    have hschema := h.mono (List.subset_append_left _ _)
    have hothers := h.mono (List.subset_append_right _ _)
    refine R.bind (convert_corresponds (hpath.append _) schema hschema) fun ty => ?_
    exact R.bind (convertItems_corresponds hpath (position + 1) others hothers) fun types => R.pure _
termination_by (sizeOf schemas, 0)

theorem convertBranches_corresponds {path path' : String} (hpath : R.SamePlace path path') (branches : Json)
    (h : Resolves R deref deref' (references branches)) :
    R.Rel (convertBranches deref path branches) (convertBranches deref' path' branches) := by
  cases branches with
  | array schemas =>
    rw [references] at h
    rw [convertBranches, convertBranches]
    exact convertItems_corresponds (hpath.append _) 0 schemas h
  | _ =>
    rw [convertBranches, convertBranches]
    · exact hpath.malformed _
    all_goals simp
termination_by (sizeOf branches, 0)

end

end Corresponds

/-! ### Plans -/

variable {deref deref' : String → Except ImportError Ty} {path path' : String} {schema : Json}

/-- The plan of a schema. -/
def plan (path : String) (schema : Json) : Plan Ty :=
  convert Plan.typeOf path schema

/-- Answering the plan of a schema converts it. -/
theorem answer_plan : (plan path schema).answer deref = convert deref path schema := by
  have hrefs : Resolves (.answering deref) Plan.typeOf deref (references schema) :=
    fun _ _ => Plan.answer_typeOf
  exact convert_corresponds (fun _ => rfl) schema hrefs

/-- A plan asks for the references of its schema, and what else is wrong is wrong with the schema. -/
theorem plan_within (path : String) (schema : Json) : (plan path schema).Within (references schema) := by
  have hrefs : Resolves (.asking (references schema)) Plan.typeOf Plan.typeOf (references schema) :=
    fun _ hmem => ⟨hmem, fun _ => trivial⟩
  exact convert_corresponds (fun _ => rfl) schema hrefs

/-- A schema has the same type in any place, and also if more references have types. -/
theorem convert_mono {t : Ty}
    (h : ∀ reference ∈ references schema, ∀ u, deref reference = .ok u → deref' reference = .ok u)
    (hconvert : convert deref path schema = .ok t) : convert deref' path' schema = .ok t := by
  have hplace : Correspondence.yielding.SamePlace path path' := False.elim
  have hrefs : Resolves .yielding deref deref' (references schema) := h
  exact convert_corresponds hplace schema hrefs t hconvert

end SchemaInfer.JsonSchema
