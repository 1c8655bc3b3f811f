import SchemaInfer.Proofs.ConversionPlan
import SchemaInfer.Proofs.Definitions
import SchemaInfer.Proofs.JsonSchemaImport

/-!
# The expansion of references

A reference into a document is expanded by converting the part that it names, and while that goes on the
reference stands on a stack. One that stands there already is not expanded again. So the references of a
document are definitions that refer to each other, with the plans of the schemas that they name. Their types
are those of `deref`, which has the references on the stack as a parameter and follows one equation
(`deref_eq`), and what is true of all such definitions is true of them.
-/

namespace SchemaInfer.JsonSchema

/-! ### The types of references -/

/-- The schema that a reference names, unless the reference is on the stack. -/
def locate (document : Json) (stack : List String) (reference : String) : Except ImportError Json :=
  if reference.toList.head? == some '#' then
    if reference ∈ stack then .error (.recursiveReference reference)
    else
      match target? document reference with
      | some schema => .ok schema
      | none => .error (.unresolvedReference reference)
  else .error (.unresolvedReference reference)

/-- The type of a reference while those on a stack are being expanded. -/
def deref (document : Json) (stack : List String) (reference : String) : Except ImportError Ty :=
  expand document ((reference :: references document).filter fun other => other ∉ stack) reference

/-- Converting what the first reference names comes to the second one. -/
def Uses (document : Json) (reference other : String) : Prop :=
  ∃ schema, target? document reference = some schema ∧
    other ∈ (plan reference schema).asked (deref document [reference])

/-! ### The references of a part -/

theorem references_subset_of_mem_items {item : Json} {items : List Json} (h : item ∈ items) :
    references item ⊆ referencesOfItems items := by
  induction items with
  | nil => cases h
  | cons other items ih =>
    rw [referencesOfItems]
    rcases List.mem_cons.mp h with rfl | h
    · exact List.subset_append_left _ _
    · exact List.Subset.trans (ih h) (List.subset_append_right _ _)

theorem references_subset_of_child {token : String} {json part : Json}
    (h : json.child? token = some part) : references part ⊆ references json := by
  cases json with
  | object entries => exact references_subset_of_lookup h
  | array items =>
    obtain ⟨i, _, hi⟩ := Option.bind_eq_some_iff.mp h
    exact references_subset_of_mem_items (List.mem_of_getElem? hi)
  | _ => cases h

theorem references_subset_of_resolve {json part : Json} {pointer : Json.Pointer}
    (h : json.resolve? pointer = some part) : references part ⊆ references json := by
  induction pointer generalizing json with
  | nil =>
    cases h
    exact List.Subset.refl _
  | cons token rest ih =>
    obtain ⟨child, hchild, hrest⟩ := Option.bind_eq_some_iff.mp h
    exact List.Subset.trans (ih hrest) (references_subset_of_child hchild)

variable {document node schema : Json} {stack stack' : List String} {reference path : String}

theorem references_subset_of_target (h : target? document reference = some schema) :
    references schema ⊆ references document := by
  rw [target?] at h
  split at h
  · obtain ⟨pointer, _, hresolve⟩ := Option.bind_eq_some_iff.mp h
    exact references_subset_of_resolve hresolve
  · cases h

theorem plan_within_of_target (h : target? document reference = some schema) :
    (plan path schema).Within (references document) :=
  (plan_within path schema).mono (references_subset_of_target h)

/-! ### One expansion -/

theorem locate_eq_ok_iff : locate document stack reference = .ok schema ↔
    reference.toList.head? = some '#' ∧ reference ∉ stack ∧
      target? document reference = some schema := by
  unfold locate
  by_cases hlocal : reference.toList.head? = some '#'
  · by_cases hmem : reference ∈ stack
    · simp [hlocal, hmem]
    · cases htarget : target? document reference with
      | none => simp [hlocal, hmem]
      | some found => simp [hlocal, hmem]
  · simp [hlocal]

theorem locate_mono (hsub : stack' ⊆ stack) (h : locate document stack reference = .ok schema) :
    locate document stack' reference = .ok schema := by
  obtain ⟨hlocal, hmem, htarget⟩ := locate_eq_ok_iff.mp h
  exact locate_eq_ok_iff.mpr ⟨hlocal, fun hmem' => hmem (hsub hmem'), htarget⟩

theorem eq_and_mem_of_locate {recursive : String}
    (h : locate document stack reference = .error (.recursiveReference recursive)) :
    recursive = reference ∧ reference ∈ stack := by
  unfold locate at h
  split at h
  · split at h
    · rename_i hmem
      cases h
      exact ⟨rfl, hmem⟩
    · split at h <;> cases h
  · cases h

/-- The names that may still be expanded count as a set. -/
theorem expand_congr {available other : List String} (h : ∀ name, name ∈ available ↔ name ∈ other) :
    expand document available reference = expand document other reference := by
  induction hlength : available.length using Nat.strongRecOn generalizing available other reference with
  | _ length ih =>
  subst hlength
  rw [expand, expand]
  split
  · unfold Expansion.expanding
    by_cases hmem : reference ∈ available
    · have hrest : ∀ name, name ∈ Expansion.without reference available ↔
          name ∈ Expansion.without reference other := by
        intro name
        rw [Expansion.without, Expansion.without, List.mem_filter, List.mem_filter, h]
      have hinner : ∀ inner, expand document (Expansion.without reference available) inner =
          expand document (Expansion.without reference other) inner :=
        fun inner => ih _ (Expansion.length_without_lt hmem) hrest rfl
      rw [dif_pos hmem, dif_pos ((h reference).mp hmem)]
      simp only [hinner]
    · rw [dif_neg hmem, dif_neg (mt (h reference).mpr hmem)]
  · rfl

/-- For a reference of the document, those of the document are all that may be expanded. -/
theorem expand_eq_deref {available : List String} (hmem : reference ∈ references document)
    (h : ∀ name, name ∈ available ↔ name ∈ references document ∧ name ∉ stack) :
    expand document available reference = deref document stack reference := by
  apply expand_congr
  intro name
  rw [h, List.mem_filter, List.mem_cons, decide_eq_true_iff]
  refine and_congr_left fun _ => ⟨Or.inr, ?_⟩
  rintro (rfl | hname)
  · exact hmem
  · exact hname

/-- What the references of a schema of the document stand for is all that counts. -/
theorem convert_expand {available : List String} (hrefs : references schema ⊆ references document)
    (h : ∀ name, name ∈ available ↔ name ∈ references document ∧ name ∉ stack) :
    convert (expand document available) path schema = convert (deref document stack) path schema := by
  rw [← answer_plan, ← answer_plan]
  exact Plan.answer_congr (plan_within path schema) fun inner hinner => expand_eq_deref (hrefs hinner) h

/-- A reference has the type of the schema that it names, with the reference on the stack. -/
theorem deref_eq : deref document stack reference =
    locate document stack reference >>= fun schema =>
      convert (deref document (reference :: stack)) reference schema := by
  rw [deref, expand, locate]
  split
  · unfold Expansion.expanding
    by_cases hmem : reference ∈ stack
    · rw [if_pos hmem, dif_neg]
      · rfl
      · simp [hmem]
    · have hrest : ∀ name, name ∈ Expansion.without reference
          ((reference :: references document).filter fun other => other ∉ stack) ↔
            name ∈ references document ∧ name ∉ reference :: stack := by
        intro name
        simp only [Expansion.without, List.mem_filter, List.mem_cons, decide_eq_true_iff, bne_iff_ne]
        grind
      rw [if_neg hmem, dif_pos]
      · cases htarget : target? document reference with
        | none => rfl
        | some schema => exact convert_expand (references_subset_of_target htarget) hrest
      · simp [hmem]
  · rfl

theorem toType_eq_convert : toType document = convert (deref document []) "#" document := by
  apply convert_expand (List.Subset.refl _)
  simp

/-! ### All expansions -/

/-- The references of a document and what they name. -/
def definitions (document : Json) : Definitions where
  names := references document
  locate stack reference := do return plan reference (← locate document stack reference)
  within h := by
    obtain ⟨schema, hlocate, hplan⟩ := bind_eq_ok_iff.mp h
    cases hplan
    exact plan_within_of_target (locate_eq_ok_iff.mp hlocate).2.2
  notMem h := by
    obtain ⟨schema, hlocate, _⟩ := bind_eq_ok_iff.mp h
    exact (locate_eq_ok_iff.mp hlocate).2.1
  mono hsub h := by
    obtain ⟨schema, hlocate, hplan⟩ := bind_eq_ok_iff.mp h
    exact bind_eq_ok_iff.mpr ⟨schema, locate_mono hsub hlocate, hplan⟩
  recursive {stack reference recursive} h := by
    cases hlocate : locate document stack reference with
    | error failure =>
      rw [hlocate] at h
      cases h
      exact eq_and_mem_of_locate hlocate
    | ok schema =>
      rw [hlocate] at h
      cases h

/-- Converting a schema with some references on the stack ends with an outcome and leaves a stack. -/
def Converts (document : Json) (stack : List String) (path : String) (node : Json)
    (outcome : Except ImportError Ty) (after : List String) : Prop :=
  (definitions document).Runs (plan path node) stack outcome after

theorem deref_solution (document : Json) : (definitions document).Solution (deref document) := by
  intro stack reference
  rw [deref_eq]
  simp only [definitions, bind_assoc, pure_bind, answer_plan]

theorem covers_uses (document : Json) :
    (definitions document).Covers (deref document) (Uses document) := by
  intro stack reference p other h hasked
  obtain ⟨schema, hlocate, hplan⟩ := bind_eq_ok_iff.mp h
  cases hplan
  exact ⟨schema, (locate_eq_ok_iff.mp hlocate).2.2, hasked⟩

/-- Converting always ends, with one outcome and the stack as it was. -/
theorem converts_iff {outcome : Except ImportError Ty} {after : List String} :
    Converts document stack path node outcome after ↔
      outcome = convert (deref document stack) path node ∧ after = stack := by
  rw [← answer_plan]
  exact Definitions.runs_iff (deref_solution document) (plan_within path node)

theorem converts_toType : Converts document [] "#" document (toType document) [] :=
  converts_iff.mpr ⟨toType_eq_convert, rfl⟩

/-- The first reference on the way to the recursive one is one that the schema itself asks for. -/
theorem Converts.cycle {recursive : String}
    (h : Converts document stack path node (.error (.recursiveReference recursive)) stack) :
    (∃ first ∈ (plan path node).asked (deref document stack),
      Relation.ReflTransGen (Uses document) first recursive) ∧
    (recursive ∈ stack ∨ Relation.TransGen (Uses document) recursive recursive) := by
  have hanswer := (converts_iff.mp h).1.symm
  rw [← answer_plan] at hanswer
  exact (deref_solution document).answer_cycle (covers_uses document) (plan_within path node) hanswer

/-- **Expanding references ends, shares types and finds real cycles only.** Converting a schema has one
outcome, with the stack as it was. A type is the same with any part of the stack, in any place. A
reference is called recursive only if it is on the stack from the start or its expansion comes to it again,
so the conversion of a whole document finds it only on a cycle. -/
theorem expansion_of_references (document : Json) :
    (∀ stack path node outcome after, Converts document stack path node outcome after ↔
      outcome = convert (deref document stack) path node ∧ after = stack) ∧
    (∀ stack stack' path path' node t, stack' ⊆ stack →
      Converts document stack path node (.ok t) stack →
        Converts document stack' path' node (.ok t) stack') ∧
    (∀ stack path node recursive,
      Converts document stack path node (.error (.recursiveReference recursive)) stack →
        (∃ first ∈ (plan path node).asked (deref document stack),
          Relation.ReflTransGen (Uses document) first recursive) ∧
        (recursive ∈ stack ∨ Relation.TransGen (Uses document) recursive recursive)) ∧
    Converts document [] "#" document (toType document) [] ∧
    ∀ recursive, toType document = .error (.recursiveReference recursive) →
      Relation.TransGen (Uses document) recursive recursive := by
  refine ⟨?_, ?_, ?_, converts_toType, ?_⟩
  · intro stack path node outcome after
    exact converts_iff
  · intro stack stack' path path' node t hsub h
    have hconvert := (converts_iff.mp h).1.symm
    refine converts_iff.mpr ⟨?_, rfl⟩
    exact (convert_mono (fun _ _ _ => (deref_solution document).mono hsub) hconvert).symm
  · intro stack path node recursive h
    exact h.cycle
  · intro recursive hrecursive
    have himport : Converts document [] "#" document (.error (.recursiveReference recursive)) [] :=
      hrecursive ▸ converts_toType
    exact himport.cycle.2.resolve_left List.not_mem_nil

theorem convert_of_ref {entries : List (String × Json)} {f : String → Except ImportError Ty}
    (href : entries.lookup "$ref" = some (.string reference))
    (hnullable : entries.lookup "nullable" = none) : convert f path (.object entries) = f reference := by
  rw [convert, convertBody, href]
  simp only [nullableType, hnullable]
  exact bind_ok

/-- A document with a definition that refers to itself and one that does not. -/
def looping : Json :=
  .object [("item", ofKind "string"), ("loop", .object [("$ref", .string "#/loop")]),
    ("$ref", .string "#/loop")]

/-- A definition that is used twice has its type also while another one is being expanded, and only the one
that refers to itself is recursive. -/
theorem expansion_of_references_of_loop :
    let item : Json := .object [("$ref", .string "#/item")]
    toType looping = .error (.recursiveReference "#/loop") ∧
      Relation.TransGen (Uses looping) "#/loop" "#/loop" ∧
      Converts looping ["#/loop"] "#" (anyOf [item, item]) (.ok .string) ["#/loop"] ∧
      Converts looping [] "#/other" (anyOf [item, item]) (.ok .string) [] := by
  intro item
  have hrecursive : toType looping = .error (.recursiveReference "#/loop") := by
    have hloop : locate looping [] "#/loop" = .ok (.object [("$ref", .string "#/loop")]) := by rfl
    have hagain : locate looping ["#/loop"] "#/loop" = .error (.recursiveReference "#/loop") := by rfl
    calc toType looping = convert (deref looping []) "#" looping := toType_eq_convert
      _ = deref looping [] "#/loop" := convert_of_ref rfl rfl
      _ = convert (deref looping ["#/loop"]) "#/loop" (.object [("$ref", .string "#/loop")]) := by
          rw [deref_eq, hloop, ok_bind]
      _ = deref looping ["#/loop"] "#/loop" := convert_of_ref rfl rfl
      _ = .error (.recursiveReference "#/loop") := by
          rw [deref_eq, hagain]
          rfl
  have hitem : ∀ path, convert (deref looping ["#/loop"]) path item = .ok .string := by
    intro path
    have hlocate : locate looping ["#/loop"] "#/item" = .ok (ofKind "string") := by rfl
    have hderef : deref looping ["#/loop"] "#/item" = .ok .string := by
      rw [deref_eq, hlocate, ok_bind]
      exact reads_ofType (t := .string) (by decide) rfl _ _
    exact (convert_of_ref rfl rfl).trans hderef
  have hitems : ∀ path, convertItems (deref looping ["#/loop"]) path 0 [item, item] =
      .ok [.string, .string] := by
    intro path
    exact convertItems_of_forall₂ (.cons hitem (.cons hitem .nil))
  have hconvert : convert (deref looping ["#/loop"]) "#" (anyOf [item, item]) = .ok .string :=
    convert_anyOf hitems
  obtain ⟨hconverts, hshared, _, _, hcycle⟩ := expansion_of_references looping
  have hopen : Converts looping ["#/loop"] "#" (anyOf [item, item]) (.ok .string) ["#/loop"] :=
    (hconverts _ _ _ _ _).mpr ⟨hconvert.symm, rfl⟩
  exact ⟨hrecursive, hcycle _ hrecursive, hopen, hshared _ _ _ _ _ _ (List.nil_subset _) hopen⟩

end SchemaInfer.JsonSchema
