import SchemaInfer.JsonSchema.Import
import SchemaInfer.Proofs.JsonSchemaExport
import SchemaInfer.Proofs.Unions

/-!
# The types of JSON Schemas

Whatever a JSON Schema says, and wherever its references lead, the type that it describes is well-formed,
has no functions and no variables in it, and counts its demands: a property has to occur once exactly if
it is demanded. `Ty.Describable` is the conjunction of the three. It is kept by pooling, which edits the
properties of one object by those of another, and by each function of the conversion; the proof follows
the mutual recursion of these functions, and for references the list of those that may still be expanded.
-/

namespace SchemaInfer

namespace Ty

variable {a b t : Ty} {ts : List Ty} {ps qs : Properties} {isOpen : Bool}

/-! ### Describable types -/

/-- The lower bound is the one that goes with being demanded or not. -/
def CountsDemand (p : Property Ty) : Prop :=
  p.minOccurs = if p.required then 1 else 0

instance : DecidablePred CountsDemand :=
  fun p => inferInstanceAs (Decidable (p.minOccurs = if p.required then 1 else 0))

def CountedNode : Ty → Prop
  | object ps _ => Entries.All CountsDemand ps
  | _ => True

instance : DecidablePred CountedNode
  | object ps _ => inferInstanceAs (Decidable (Entries.All CountsDemand ps))
  | string | number | integer | boolean | null | any | array _ | union _ | var _ | function _ _ =>
    inferInstanceAs (Decidable True)

/-- All properties inside the type count their demand. -/
def Counted (t : Ty) : Prop :=
  t.Everywhere CountedNode

instance : DecidablePred Counted :=
  inferInstanceAs (DecidablePred (Everywhere CountedNode))

/-- What is true of every type that a JSON Schema describes. -/
structure Describable (t : Ty) : Prop where
  wellFormed : t.WellFormed
  isData : t.IsData
  counted : t.Counted

def DescribableProperty (p : Property Ty) : Prop :=
  CountsDemand p ∧ p.ty.Describable

namespace Describable

theorem of_isPrimitive (h : t.isPrimitive = true) : t.Describable := by
  refine ⟨.of_isPrimitive h, Everywhere.of_isPrimitive h ?_, Everywhere.of_isPrimitive h ?_⟩
  · cases t with
    | var name | function params r => cases h
    | _ => exact ⟨rfl, rfl⟩
  · cases t with
    | object ps isOpen => cases h
    | _ => trivial

theorem array (h : t.Describable) : (array t).Describable where
  wellFormed := WellFormed.array_iff.mpr h.wellFormed
  isData := Everywhere.array_iff.mpr ⟨⟨rfl, rfl⟩, h.isData⟩
  counted := Everywhere.array_iff.mpr ⟨trivial, h.counted⟩

theorem object_iff : (object ps isOpen).Describable ↔
    (Entries.keys ps).Nodup ∧ Entries.All DescribableProperty ps := by
  constructor
  · rintro ⟨hwf, hdata, hcounted⟩
    obtain ⟨hkeys, hps⟩ := WellFormed.object_iff.mp hwf
    obtain ⟨_, hdata⟩ := Everywhere.object_iff.mp hdata
    obtain ⟨hnode, hcounted⟩ := Everywhere.object_iff.mp hcounted
    refine ⟨hkeys, fun name p hp => ⟨hnode name p hp, ?_⟩⟩
    exact ⟨hps name p hp, hdata name p hp, hcounted name p hp⟩
  · rintro ⟨hkeys, hps⟩
    refine ⟨WellFormed.object_iff.mpr ⟨hkeys, ?_⟩, Everywhere.object_iff.mpr ⟨⟨rfl, rfl⟩, ?_⟩,
      Everywhere.object_iff.mpr ⟨?_, ?_⟩⟩
    · exact fun name p hp => (hps name p hp).2.wellFormed
    · exact fun name p hp => (hps name p hp).2.isData
    · exact fun name p hp => (hps name p hp).1
    · exact fun name p hp => (hps name p hp).2.counted

theorem oneOf (hts : ∀ t ∈ ts, t.Describable) : (oneOf ts).Describable where
  wellFormed := wellFormed_oneOf fun t ht => (hts t ht).wellFormed
  isData := Everywhere.oneOf ⟨rfl, rfl⟩ (fun _ => ⟨rfl, rfl⟩) fun t ht => (hts t ht).isData
  counted := Everywhere.oneOf trivial (fun _ => trivial) fun t ht => (hts t ht).counted

theorem orNull (ht : t.Describable) : t.orNull.Describable := by
  unfold Ty.orNull
  split
  · exact ht
  · exact ht
  · exact oneOf (forall_mem_pair.mpr ⟨ht, of_isPrimitive rfl⟩)

theorem join (ha : a.Describable) (hb : b.Describable) : (a.join b).Describable :=
  join_of_oneOf (of_isPrimitive rfl) oneOf ha hb

theorem elementOf (hts : ∀ t ∈ ts, t.Describable) : (elementOf ts).Describable := by
  cases ts with
  | nil => exact of_isPrimitive rfl
  | cons t ts =>
    obtain ⟨ht, hts⟩ := List.forall_mem_cons.mp hts
    exact foldl_join_of_oneOf (of_isPrimitive rfl) oneOf ht hts

end Describable

/-! ### Pooling -/

/-- A property of one object with what another object says about it. -/
def pooledProperty (p : Property Ty) : Option (Property Ty) → Property Ty
  | none => p
  | some q =>
    { ty := p.ty.pool q.ty
      required := p.required || q.required
      minOccurs := if q.required then max (max p.minOccurs q.minOccurs) 1 else p.minOccurs
      maxOccurs := p.maxOccurs
      description := p.description <|> q.description }

theorem poolProperties_eq_map (ps qs : Properties) : poolProperties ps qs =
    ps.map fun entry => (entry.1, pooledProperty entry.2 (qs.lookup entry.1)) := by
  induction ps with
  | nil => rfl
  | cons entry ps ih =>
    obtain ⟨name, p⟩ := entry
    rw [poolProperties, ih, List.map_cons]
    cases qs.lookup name with
    | none => rfl
    | some q => rfl

/-- The properties of two objects together: those of the first, and then those that only the second
has. -/
def pooled (ps qs : Properties) : Properties :=
  poolProperties ps qs ++ qs.filter fun (name, _) => !Entries.hasKey name ps

/-- What pooling two types comes down to. -/
theorem pool_cases (a b : Ty) : a.pool b = a ∨ a.pool b = b ∨ a.pool b = a.join b ∨
    ∃ ps open₁ qs open₂, a = object ps open₁ ∧ b = object qs open₂ ∧
      a.pool b = object (pooled ps qs) (open₁ && open₂) := by
  cases a with
  | any => exact Or.inr (Or.inl rfl)
  | object ps open₁ =>
    cases b with
    | any => exact Or.inl rfl
    | object qs open₂ => exact Or.inr (Or.inr (Or.inr ⟨ps, open₁, qs, open₂, rfl, rfl, rfl⟩))
    | _ => exact Or.inr (Or.inr (Or.inl rfl))
  | _ =>
    cases b with
    | any => exact Or.inl rfl
    | _ => exact Or.inr (Or.inr (Or.inl rfl))

theorem keys_pooled (ps qs : Properties) : Entries.keys (pooled ps qs) =
    Entries.keys ps ++ (Entries.keys qs).filter fun name => !Entries.hasKey name ps := by
  unfold pooled Entries.keys
  rw [poolProperties_eq_map, List.map_append, List.map_map, List.filter_map]
  rfl

theorem nodup_keys_pooled (hps : (Entries.keys ps).Nodup) (hqs : (Entries.keys qs).Nodup) :
    (Entries.keys (pooled ps qs)).Nodup := by
  rw [keys_pooled]
  refine List.nodup_append'.mpr ⟨hps, hqs.filter _, ?_⟩
  intro name hname hfresh
  have hnot := (List.mem_filter.mp hfresh).2
  rw [Entries.hasKey_iff.mpr hname] at hnot
  cases hnot

theorem mem_pooled {name : String} {p : Property Ty} (h : (name, p) ∈ pooled ps qs) :
    (name, p) ∈ qs ∨ ∃ q, (name, q) ∈ ps ∧ p = pooledProperty q (qs.lookup name) := by
  rcases List.mem_append.mp h with hleft | hright
  · rw [poolProperties_eq_map] at hleft
    obtain ⟨⟨_, q⟩, hq, heq⟩ := List.mem_map.mp hleft
    obtain ⟨rfl, rfl⟩ := Prod.mk.inj heq
    exact Or.inr ⟨q, hq, rfl⟩
  · exact Or.inl (List.mem_of_mem_filter hright)

theorem countsDemand_pooledProperty {p : Property Ty} {found : Option (Property Ty)}
    (hp : CountsDemand p) (hfound : ∀ q, found = some q → CountsDemand q) :
    CountsDemand (pooledProperty p found) := by
  cases found with
  | none => exact hp
  | some q =>
    have hq : q.minOccurs = if q.required then 1 else 0 := hfound q rfl
    unfold CountsDemand at hp
    simp only [CountsDemand, pooledProperty, hp, hq]
    cases p.required <;> cases q.required <;> rfl

/-- Pooling keeps types describable. The recursion goes through the properties that both objects have. -/
theorem Describable.pool {a b : Ty} (ha : a.Describable) (hb : b.Describable) :
    (a.pool b).Describable := by
  induction hsize : sizeOf a using Nat.strongRecOn generalizing a b with
  | _ size ih =>
  subst hsize
  rcases pool_cases a b with heq | heq | heq | ⟨ps, open₁, qs, open₂, rfl, rfl, heq⟩
  · rw [heq]
    exact ha
  · rw [heq]
    exact hb
  · rw [heq]
    exact ha.join hb
  · rw [heq, object_iff]
    obtain ⟨hpkeys, hps⟩ := object_iff.mp ha
    obtain ⟨hqkeys, hqs⟩ := object_iff.mp hb
    refine ⟨nodup_keys_pooled hpkeys hqkeys, fun name r hr => ?_⟩
    rcases mem_pooled hr with hq | ⟨p, hp, rfl⟩
    · exact hqs name r hq
    · obtain ⟨hcounts, hty⟩ := hps name p hp
      refine ⟨countsDemand_pooledProperty hcounts fun q hq => (hqs.lookup hq).1, ?_⟩
      cases hlookup : qs.lookup name with
      | none => exact hty
      | some q => exact ih _ (sizeOf_lt_object hp) hty (hqs.lookup hlookup).2 rfl

end Ty

/-! ### Conversion -/

namespace JsonSchema

open Ty (Describable DescribableProperty)

variable {deref : String → Except ImportError Ty} {required : List String} {name : String}
  {schema : Json} {ps : Properties} {t : Ty}

mutual

theorem describable_valueType : ∀ value, (valueType value).Describable
  | .null | .bool _ | .int _ | .float _ | .string _ => .of_isPrimitive rfl
  | .array items => (Describable.elementOf (describable_valueTypes items)).array
  | .object _ => Describable.object_iff.mpr ⟨List.nodup_nil, .nil⟩

theorem describable_valueTypes : ∀ values, ∀ t ∈ valueTypes values, t.Describable
  | [] => List.forall_mem_nil _
  | value :: values =>
    List.forall_mem_cons.mpr ⟨describable_valueType value, describable_valueTypes values⟩

end

theorem describable_foldl_pool {parts : List Ty} (ht : t.Describable)
    (hparts : ∀ part ∈ parts, part.Describable) : (parts.foldl Ty.pool t).Describable := by
  induction parts generalizing t with
  | nil => exact ht
  | cons part parts ih =>
    obtain ⟨hpart, hparts⟩ := List.forall_mem_cons.mp hparts
    exact ih (ht.pool hpart) hparts

theorem describable_alternatives {base : Ty} {parts : List Ty} (hbase : base.Describable)
    (hparts : ∀ part ∈ parts, part.Describable) :
    (Ty.oneOf (parts.map fun part => base.pool part)).Describable :=
  .oneOf (List.forall_mem_map.mpr fun part hpart => hbase.pool (hparts part hpart))

theorem describable_elements {positions others : List Ty} (hpositions : ∀ t ∈ positions, t.Describable)
    (hothers : ∀ t ∈ others, t.Describable) :
    (Ty.array (Ty.elementOf (positions ++ others))).Describable :=
  (Describable.elementOf (List.forall_mem_append.mpr ⟨hpositions, hothers⟩)).array

theorem declared_describable (ht : t.Describable) :
    DescribableProperty (declared required name schema t) := by
  unfold declared
  split
  · exact ⟨rfl, ht⟩
  · exact ⟨rfl, ht⟩

theorem describable_addUndeclared {names : List String} (hkeys : (Entries.keys ps).Nodup)
    (hps : Entries.All DescribableProperty ps) :
    (Entries.keys (addUndeclared names ps)).Nodup ∧
      Entries.All DescribableProperty (addUndeclared names ps) := by
  induction names generalizing ps with
  | nil => exact ⟨hkeys, hps⟩
  | cons name names ih =>
    unfold addUndeclared at ih ⊢
    rw [List.foldl_cons]
    split
    · exact ih hkeys hps
    · exact ih (Entries.nodup_keys_insert hkeys) (hps.insert ⟨rfl, .of_isPrimitive rfl⟩)

mutual

theorem convert_describable (hderef : ∀ reference, Yields Describable (deref reference))
    (path : String) (schema : Json) : Yields Describable (convert deref path schema) := by
  rw [convert.eq_def]
  split
  · exact Describable.of_isPrimitive rfl
  · trivial
  · rename_i entries
    refine (convertBody_describable hderef path entries).bind fun t ht => ?_
    change (nullableType entries t).Describable
    unfold nullableType
    split
    · exact ht.orNull
    · exact ht
  · trivial
termination_by (sizeOf schema, 0)

theorem convertBody_describable (hderef : ∀ reference, Yields Describable (deref reference))
    (path : String) (entries : List (String × Json)) :
    Yields Describable (convertBody deref path entries) := by
  rw [convertBody]
  split
  · exact hderef _
  · trivial
  · exact convertInline_describable hderef path entries
termination_by (sizeOf entries, 5)

theorem convertInline_describable (hderef : ∀ reference, Yields Describable (deref reference))
    (path : String) (entries : List (String × Json)) :
    Yields Describable (convertInline deref path entries) := by
  rw [convertInline]
  split
  · exact describable_valueType _
  · trivial
  · exact Describable.oneOf (describable_valueTypes _)
  · trivial
  · refine (convertTyped_describable hderef path entries).bind fun own hown => ?_
    refine (convertCombinator_describable hderef path _ entries).bind fun parts hparts => ?_
    exact convertAlternatives_describable hderef path (describable_foldl_pool hown hparts) entries
termination_by (sizeOf entries, 4)

/-- The alternatives are pooled with what stands besides them. -/
theorem convertAlternatives_describable (hderef : ∀ reference, Yields Describable (deref reference))
    (path : String) {base : Ty} (hbase : base.Describable) (entries : List (String × Json)) :
    Yields Describable (convertAlternatives deref path base entries) := by
  rw [convertAlternatives]
  refine (convertCombinator_describable hderef path _ entries).bind fun parts hparts => ?_
  cases parts with
  | some parts => exact describable_alternatives hbase hparts
  | none =>
    refine (convertCombinator_describable hderef path _ entries).bind fun parts hparts => ?_
    cases parts with
    | some parts => exact describable_alternatives hbase hparts
    | none => exact hbase
termination_by (sizeOf entries, 1)

theorem convertCombinator_describable (hderef : ∀ reference, Yields Describable (deref reference))
    (path keyword : String) (entries : List (String × Json)) :
    Yields (fun parts => ∀ t ∈ parts.getD [], t.Describable)
      (convertCombinator deref path keyword entries) := by
  rw [convertCombinator]
  split
  · rename_i branches hlookup
    exact (convertBranches_describable hderef _ branches).bind fun parts hparts => hparts
  · exact List.forall_mem_nil _
termination_by (sizeOf entries, 0)
decreasing_by exact .left _ _ (Entries.sizeOf_lt_of_lookup ‹_›)

theorem convertTyped_describable (hderef : ∀ reference, Yields Describable (deref reference))
    (path : String) (entries : List (String × Json)) :
    Yields Describable (convertTyped deref path entries) := by
  rw [convertTyped]
  split
  · exact convertNamed_describable hderef path entries _
  · refine Ends.bind (Ends.mapM fun name _ => ?_) fun types htypes => Describable.oneOf htypes
    split
    · exact convertNamed_describable hderef path entries _
    · trivial
  · trivial
  · split
    · exact convertObject_describable hderef path entries
    · split
      · exact convertArray_describable hderef path entries
      · exact Describable.of_isPrimitive rfl
termination_by (sizeOf entries, 3)

theorem convertNamed_describable (hderef : ∀ reference, Yields Describable (deref reference))
    (path : String) (entries : List (String × Json)) (name : String) :
    Yields Describable (convertNamed deref path entries name) := by
  rw [convertNamed.eq_def]
  split
  · exact Describable.of_isPrimitive rfl
  · exact Describable.of_isPrimitive rfl
  · exact Describable.of_isPrimitive rfl
  · exact Describable.of_isPrimitive rfl
  · exact Describable.of_isPrimitive rfl
  · exact convertArray_describable hderef path entries
  · exact convertObject_describable hderef path entries
  · trivial
termination_by (sizeOf entries, 2)

theorem convertObject_describable (hderef : ∀ reference, Yields Describable (deref reference))
    (path : String) (entries : List (String × Json)) :
    Yields Describable (convertObject deref path entries) := by
  have hdeclared : Yields (Entries.All DescribableProperty) (convertDeclared deref path entries) := by
    rw [convertDeclared]
    split
    · rename_i schemas hlookup
      exact convertProperties_describable hderef _ _ schemas
    · exact .nil
  rw [convertObject]
  refine hdeclared.bind fun properties hproperties => Describable.object_iff.mpr ?_
  exact describable_addUndeclared Entries.nodup_keys_ofList hproperties.ofList
termination_by (sizeOf entries, 1)
decreasing_by
  exact .left _ _ (sizeOf_entries_lt ‹entries.lookup "properties" = _›)

theorem convertProperties_describable (hderef : ∀ reference, Yields Describable (deref reference))
    (path : String) (required : List String) (schemas : List (String × Json)) :
    Yields (Entries.All DescribableProperty) (convertProperties deref path required schemas) := by
  cases schemas with
  | nil =>
    rw [convertProperties]
    exact .nil
  | cons first others =>
    obtain ⟨name, schema⟩ := first
    rw [convertProperties]
    refine (convert_describable hderef _ schema).bind fun ty hty => ?_
    refine (convertProperties_describable hderef path required others).bind fun ps hps => ?_
    exact Entries.All.cons_iff.mpr ⟨declared_describable hty, hps⟩
termination_by (sizeOf schemas, 0)

theorem convertArray_describable (hderef : ∀ reference, Yields Describable (deref reference))
    (path : String) (entries : List (String × Json)) :
    Yields Describable (convertArray deref path entries) := by
  have hpositions : Yields (fun types => ∀ t ∈ types, t.Describable)
      (convertPositions deref path entries) := by
    rw [convertPositions]
    split
    · rename_i schemas hlookup
      exact convertItems_describable hderef _ 0 schemas
    · exact List.forall_mem_nil _
  have hothers : Yields (fun types => ∀ t ∈ types, t.Describable)
      (convertOthers deref path entries) := by
    rw [convertOthers]
    split
    · rename_i schemas hlookup
      exact convertItems_describable hderef _ 0 schemas
    · exact List.forall_mem_nil _
    · exact List.forall_mem_nil _
    · rename_i schema _ _ hlookup
      refine (convert_describable hderef _ schema).bind fun ty hty => ?_
      exact List.forall_mem_singleton.mpr hty
  rw [convertArray]
  exact hpositions.bind fun positions hpositions => hothers.bind fun others hothers =>
    describable_elements hpositions hothers
termination_by (sizeOf entries, 1)
decreasing_by
  · exact .left _ _ (sizeOf_items_lt ‹entries.lookup "prefixItems" = _›)
  · exact .left _ _ (sizeOf_items_lt ‹entries.lookup "items" = _›)
  · exact .left _ _ (Entries.sizeOf_lt_of_lookup ‹entries.lookup "items" = _›)

theorem convertItems_describable (hderef : ∀ reference, Yields Describable (deref reference))
    (path : String) (position : Nat) (schemas : List Json) :
    Yields (fun types => ∀ t ∈ types, t.Describable) (convertItems deref path position schemas) := by
  cases schemas with
  | nil =>
    rw [convertItems]
    exact List.forall_mem_nil _
  | cons schema others =>
    rw [convertItems]
    refine (convert_describable hderef _ schema).bind fun ty hty => ?_
    refine (convertItems_describable hderef path (position + 1) others).bind fun types htypes => ?_
    exact List.forall_mem_cons.mpr ⟨hty, htypes⟩
termination_by (sizeOf schemas, 0)

theorem convertBranches_describable (hderef : ∀ reference, Yields Describable (deref reference))
    (path : String) (branches : Json) :
    Yields (fun types => ∀ t ∈ types, t.Describable) (convertBranches deref path branches) := by
  rw [convertBranches.eq_def]
  split
  · exact convertItems_describable hderef _ 0 _
  · trivial
termination_by (sizeOf branches, 0)

end

/-- References are expanded along the list of those that may be expanded, which gets shorter. -/
theorem expand_describable (document : Json) (available : List String) (reference : String) :
    Yields Describable (expand document available reference) := by
  induction hlength : available.length using Nat.strongRecOn generalizing available reference with
  | _ length ih =>
  subst hlength
  rw [expand]
  split
  · refine Yields.expanding fun rest hrest => ?_
    split
    · exact convert_describable (fun inner => ih _ hrest rest inner rfl) reference _
    · trivial
  · trivial

theorem toType_describable (document : Json) : Yields Describable (toType document) :=
  convert_describable (expand_describable document (references document)) "#" document

end JsonSchema

end SchemaInfer
