import SchemaInfer.Proofs.ConversionPlan
import SchemaInfer.Proofs.JoinLeastUpperBound
import SchemaInfer.Proofs.JsonSchemaStability

/-!
# Schemas that are made of others

A schema that lists others under `allOf` describes what all of them say together. Objects are pooled one
after the other. Each step edits the object at hand by the next one, so that where the two disagree about
a property its description and its upper bound are those of the first. But looked up under a name, the
pooled object has what the two have under it (`lookup_pooled`): it has the keys of both, demands what one
of them demands, and is open if both are. From there `Pools` follows for any number of objects in any
order. Pooling two objects the other way round gives an equivalent type.
-/

namespace SchemaInfer

namespace Ty

variable {a b : Ty} {name : String} {p q : Property Ty} {ps qs : Properties}

/-! ### Two objects -/

/-- What two objects say together about a property. -/
def pooledAt : Option (Property Ty) → Option (Property Ty) → Option (Property Ty)
  | none, found => found
  | some p, found => some (pooledProperty p found)

/-- The pooled object has under a name what the two have under it. -/
theorem lookup_pooled (ps qs : Properties) (name : String) :
    (pooled ps qs).lookup name = pooledAt (ps.lookup name) (qs.lookup name) := by
  rw [pooled, poolProperties_eq_map, List.lookup_append,
    Entries.lookup_map fun name p => pooledProperty p (qs.lookup name)]
  cases hps : ps.lookup name with
  | some p => rfl
  | none =>
    have hfresh : (!Entries.hasKey name ps) = true := by simp [Entries.hasKey, hps]
    exact Entries.lookup_filter_of_pos (fun name => !Entries.hasKey name ps) hfresh

theorem mem_keys_pooled : name ∈ Entries.keys (pooled ps qs) ↔
    name ∈ Entries.keys ps ∨ name ∈ Entries.keys qs := by
  rw [keys_pooled, List.mem_append, List.mem_filter]
  by_cases hname : name ∈ Entries.keys ps
  · simp [hname]
  · have hfresh : Entries.hasKey name ps = false :=
      Bool.eq_false_iff.mpr fun h => hname (Entries.hasKey_iff.mp h)
    simp [hname, hfresh]

theorem isOptional_of_countsDemand (h : CountsDemand p) : p.isOptional = !p.required := by
  unfold CountsDemand at h
  unfold Property.isOptional
  rw [h]
  cases p.required <;> rfl

theorem isOptional_pooledProperty (hp : CountsDemand p) (hq : CountsDemand q) :
    (pooledProperty p (some q)).isOptional = (p.isOptional && q.isOptional) := by
  have hpooled : CountsDemand (pooledProperty p (some q)) := by
    apply countsDemand_pooledProperty hp
    intro q' heq
    exact Option.some.inj heq ▸ hq
  rw [isOptional_of_countsDemand hpooled, isOptional_of_countsDemand hp, isOptional_of_countsDemand hq,
    ← Bool.not_or]
  rfl

/-- The object demands the property. -/
def Demands (ps : Properties) (name : String) : Prop :=
  ∃ p, ps.lookup name = some p ∧ p.isOptional = false

theorem demands_pooled (hps : Entries.All CountsDemand ps) (hqs : Entries.All CountsDemand qs) :
    Demands (pooled ps qs) name ↔ Demands ps name ∨ Demands qs name := by
  unfold Demands
  rw [lookup_pooled]
  cases hp : ps.lookup name with
  | none => simp [pooledAt]
  | some p =>
    cases hq : qs.lookup name with
    | none => simp [pooledAt, pooledProperty]
    | some q =>
      have hoptional := isOptional_pooledProperty (hps.lookup hp) (hqs.lookup hq)
      simp only [pooledAt, Option.some.injEq, exists_eq_left', hoptional]
      exact Bool.and_eq_false_iff

/-! ### Any number of objects -/

/-- An object type. -/
structure ObjectType where
  properties : Properties
  isOpen : Bool

def ObjectType.ty (part : ObjectType) : Ty :=
  object part.properties part.isOpen

theorem ObjectType.counted {part : ObjectType} (h : part.ty.Describable) :
    Entries.All CountsDemand part.properties :=
  fun name p hp => ((Describable.object_iff.mp h).2 name p hp).1

/-- An object that has the properties of all parts, demands what one of them demands, and is open if all
of them are. -/
structure Pools (parts : List ObjectType) (whole : ObjectType) : Prop where
  keys : ∀ name, name ∈ Entries.keys whole.properties ↔
    ∃ part ∈ parts, name ∈ Entries.keys part.properties
  demands : ∀ name, Demands whole.properties name ↔ ∃ part ∈ parts, Demands part.properties name
  isOpen : whole.isOpen = true ↔ ∀ part ∈ parts, part.isOpen = true

namespace Pools

variable {parts parts' rest : List ObjectType} {part whole : ObjectType}

theorem singleton (part : ObjectType) : Pools [part] part := by
  constructor <;> simp

theorem perm (h : Pools parts whole) (hparts : parts'.Perm parts) : Pools parts' whole where
  keys name := by simp only [h.keys, hparts.mem_iff]
  demands name := by simp only [h.demands, hparts.mem_iff]
  isOpen := by simp only [h.isOpen, hparts.mem_iff]

/-- One more part is pooled. -/
theorem concat (h : Pools parts whole) (hwhole : whole.ty.Describable) (hpart : part.ty.Describable) :
    Pools (parts ++ [part])
      ⟨pooled whole.properties part.properties, whole.isOpen && part.isOpen⟩ where
  keys name := by
    rw [mem_keys_pooled, h.keys]
    simp [or_and_right, exists_or]
  demands name := by
    rw [demands_pooled (ObjectType.counted hwhole) (ObjectType.counted hpart), h.demands]
    simp [or_and_right, exists_or]
  isOpen := by
    rw [Bool.and_eq_true, h.isOpen, List.forall_mem_append, List.forall_mem_singleton]

/-- All remaining parts are pooled one after the other. -/
theorem foldl (h : Pools parts whole) (hwhole : whole.ty.Describable)
    (hrest : ∀ part ∈ rest, part.ty.Describable) :
    ∃ whole', (rest.map ObjectType.ty).foldl pool whole.ty = whole'.ty ∧ Pools (parts ++ rest) whole' := by
  induction rest generalizing parts whole with
  | nil => exact ⟨whole, rfl, by rwa [List.append_nil]⟩
  | cons part rest ih =>
    obtain ⟨hpart, hrest⟩ := List.forall_mem_cons.mp hrest
    obtain ⟨whole', heq, hpools⟩ := ih (h.concat hwhole hpart) (hwhole.pool hpart) hrest
    rw [List.append_assoc] at hpools
    exact ⟨whole', heq, hpools⟩

end Pools

theorem exists_pools {parts : List ObjectType} (hne : parts ≠ [])
    (hparts : ∀ part ∈ parts, part.ty.Describable) :
    ∃ whole, (parts.map ObjectType.ty).foldl pool any = whole.ty ∧ Pools parts whole := by
  obtain ⟨part, rest, rfl⟩ := List.exists_cons_of_ne_nil hne
  obtain ⟨hpart, hrest⟩ := List.forall_mem_cons.mp hparts
  exact (Pools.singleton part).foldl hpart hrest

/-! ### The other way round -/

theorem pool_any (t : Ty) : t.pool any = t := by
  cases t <;> rfl

/-- Two types that are neither both objects nor one of them unknown are joined, both ways. -/
theorem pool_both_cases (a b : Ty) : a = any ∨ b = any ∨
    (∃ ps open₁ qs open₂, a = object ps open₁ ∧ b = object qs open₂) ∨
    a.pool b = a.join b ∧ b.pool a = b.join a := by
  cases a with
  | any => exact Or.inl rfl
  | object ps open₁ =>
    cases b with
    | any => exact Or.inr (Or.inl rfl)
    | object qs open₂ => exact Or.inr (Or.inr (Or.inl ⟨ps, open₁, qs, open₂, rfl, rfl⟩))
    | _ => exact Or.inr (Or.inr (Or.inr ⟨rfl, rfl⟩))
  | _ =>
    cases b with
    | any => exact Or.inr (Or.inl rfl)
    | _ => exact Or.inr (Or.inr (Or.inr ⟨rfl, rfl⟩))

theorem join_fits_swap (ha : a.WellFormed) (hb : b.WellFormed) : Fits (a.join b) (b.join a) := by
  have hupper := fits_join hb ha
  exact (join_fits_iff ha hb).mpr ⟨hupper.2, hupper.1⟩

theorem fits_of_pooledAt {left right : Option (Property Ty)} (hp : pooledAt left right = some p)
    (hq : pooledAt right left = some q) (hleft : ∀ r, left = some r → r.ty.WellFormed)
    (hright : ∀ r, right = some r → r.ty.WellFormed)
    (hboth : ∀ r r', left = some r → right = some r' → Fits (r.ty.pool r'.ty) (r'.ty.pool r.ty)) :
    Fits p.ty q.ty := by
  cases left with
  | none =>
    cases right with
    | none => cases hp
    | some r =>
      cases hp
      cases hq
      exact .refl (hright _ rfl)
  | some r =>
    cases right with
    | none =>
      cases hp
      cases hq
      exact .refl (hleft _ rfl)
    | some r' =>
      cases hp
      cases hq
      exact hboth r r' rfl rfl

/-- The order of pooling shows in descriptions and upper bounds, at which subtyping does not look. -/
theorem pool_fits_swap {a b : Ty} (ha : a.Describable) (hb : b.Describable) :
    Fits (a.pool b) (b.pool a) := by
  induction hsize : sizeOf a using Nat.strongRecOn generalizing a b with
  | _ size ih =>
  subst hsize
  rcases pool_both_cases a b with rfl | rfl | ⟨ps, open₁, qs, open₂, rfl, rfl⟩ | ⟨hab, hba⟩
  · rw [pool_any]
    exact .refl hb.wellFormed
  · rw [pool_any]
    exact .refl ha.wellFormed
  · change Fits (object (pooled ps qs) (open₁ && open₂)) (object (pooled qs ps) (open₂ && open₁))
    rw [Bool.and_comm open₂]
    obtain ⟨hpkeys, hps⟩ := Describable.object_iff.mp ha
    obtain ⟨hqkeys, hqs⟩ := Describable.object_iff.mp hb
    apply fits_object_of_same_keys
    · intro name
      rw [mem_keys_pooled, mem_keys_pooled, Or.comm]
    intro name p q hp hq hdemanded
    rw [← Entries.lookup_eq_some_iff_mem (nodup_keys_pooled hqkeys hpkeys)] at hq
    constructor
    · have hcounted := fun name p hp => (hps name p hp).1
      have hcounted' := fun name q hq => (hqs name q hq).1
      have hdemands : Demands (pooled ps qs) name := by
        rw [demands_pooled hcounted hcounted', Or.comm, ← demands_pooled hcounted' hcounted]
        exact ⟨q, hq, hdemanded⟩
      obtain ⟨p', hp', hoptional⟩ := hdemands
      rw [hp, Option.some.injEq] at hp'
      exact hp' ▸ hoptional
    · rw [lookup_pooled] at hp hq
      refine fits_of_pooledAt hp hq (fun r hr => (hps.lookup hr).2.wellFormed)
        (fun r hr => (hqs.lookup hr).2.wellFormed) fun r r' hr hr' => ?_
      have hlt : sizeOf r.ty < sizeOf (object ps open₁) := sizeOf_lt_object (Entries.mem_of_lookup hr)
      exact ih _ hlt (hps.lookup hr).2 (hqs.lookup hr').2 rfl
  · rw [hab, hba]
    exact join_fits_swap ha.wellFormed hb.wellFormed

end Ty

namespace JsonSchema

variable {document : Json} {available : List String}

/-- Where a schema stands shows in errors only. -/
theorem convert_of_place {deref : String → Except ImportError Ty} {place : String} {schema : Json} {t : Ty}
    (h : convert deref place schema = .ok t) (path : String) : convert deref path schema = .ok t :=
  convert_mono (fun _ _ _ => id) h

/-- The schema of the values that all schemas allow. -/
def allOf (schemas : List Json) : Json :=
  .object [("allOf", .array schemas)]

/-- A schema with an object type. -/
structure Branch where
  schema : Json
  object : Ty.ObjectType

/-- The schema describes the object type, as a part of a document in which the available references may
be expanded. -/
def Branch.DescribedIn (branch : Branch) (document : Json) (available : List String) : Prop :=
  ∃ place, convert (expand document available) place branch.schema = .ok branch.object.ty

namespace Branch.DescribedIn

variable {branch : Branch} {branches : List Branch}

theorem describable (h : branch.DescribedIn document available) : branch.object.ty.Describable := by
  obtain ⟨place, hconvert⟩ := h
  exact (convert_describable (expand_describable document available) place _).of_eq_ok hconvert

theorem convert_allOf (h : ∀ branch ∈ branches, branch.DescribedIn document available) (path : String) :
    convert (expand document available) path (allOf (branches.map Branch.schema)) =
      .ok (((branches.map Branch.object).map Ty.ObjectType.ty).foldl Ty.pool .any) := by
  apply JsonSchema.convert_allOf
  rw [List.map_map, List.forall₂_map_left_iff, List.forall₂_map_right_iff, List.forall₂_same]
  intro branch hbranch
  obtain ⟨place, hconvert⟩ := h branch hbranch
  exact convert_of_place hconvert

end Branch.DescribedIn

/-- **A schema of several object schemas pools their objects.** In whatever order they are listed, it
describes an object that has the properties of all of them, demands what one of them demands, and is open
if all of them are. If two schemas are exchanged, also in another document as long as they describe the
same objects there, what they describe together is equivalent. -/
theorem allOf_pools_branches {branches order : List Branch} (hne : branches ≠ [])
    (h : ∀ branch ∈ branches, branch.DescribedIn document available) (horder : order.Perm branches)
    (path : String) :
    ∃ whole : Ty.ObjectType,
      convert (expand document available) path (allOf (order.map Branch.schema)) = .ok whole.ty ∧
      Ty.Pools (branches.map Branch.object) whole ∧
      ∀ b c document' available' path', order = [b, c] → b.DescribedIn document' available' →
        c.DescribedIn document' available' →
        ∃ t, convert (expand document' available') path' (allOf [c.schema, b.schema]) = .ok t ∧
          t.subtypeOf whole.ty = true ∧ whole.ty.subtypeOf t = true := by
  have horder' : ∀ branch ∈ order, branch.DescribedIn document available :=
    fun branch hbranch => h branch (horder.mem_iff.mp hbranch)
  have hdescribable : ∀ part ∈ order.map Branch.object, part.ty.Describable :=
    List.forall_mem_map.mpr fun branch hbranch => (horder' branch hbranch).describable
  have hne' : order.map Branch.object ≠ [] := by
    intro hnil
    rw [List.map_eq_nil_iff] at hnil
    subst hnil
    exact hne horder.nil_eq.symm
  obtain ⟨whole, hwhole, hpools⟩ := Ty.exists_pools hne' hdescribable
  refine ⟨whole, ?_, hpools.perm (horder.map _).symm, ?_⟩
  · rw [Branch.DescribedIn.convert_allOf horder', hwhole]
  · rintro b c document' available' path' rfl hb hc
    have hexchanged := Branch.DescribedIn.convert_allOf
      (List.forall_mem_cons.mpr ⟨hc, List.forall_mem_singleton.mpr hb⟩) path'
    have hfits := Ty.pool_fits_swap hb.describable hc.describable
    have hfits' := Ty.pool_fits_swap hc.describable hb.describable
    have hbc := (hb.describable.pool hc.describable).wellFormed
    have hcb := (hc.describable.pool hb.describable).wellFormed
    change b.object.ty.pool c.object.ty = whole.ty at hwhole
    rw [← hwhole]
    exact ⟨_, hexchanged, Ty.subtypeOf_of_fits hcb hbc hfits', Ty.subtypeOf_of_fits hbc hcb hfits⟩

/-- A closed object, which demands one property and allows another, and an open one, which demands the
property that the first allows. -/
theorem allOf_pools_branches_of_closed_and_open :
    let closed : Branch :=
      { schema := .object [("type", .string "object"), ("properties", .object
          [("id", .object [("type", .string "integer")]), ("tags", .object [("type", .string "string")])]),
          ("required", .array [.string "id"]), ("additionalProperties", .bool false)]
        object := ⟨[("id", .mandatory .integer), ("tags", .optional .string)], false⟩ }
    let unlimited : Branch :=
      { schema := tagged (.object []) [.string "tags"], object := ⟨[("tags", .mandatory .any)], true⟩ }
    ∃ whole : Ty.ObjectType,
      toType (allOf [unlimited.schema, closed.schema]) = .ok whole.ty ∧
      Ty.Pools [closed.object, unlimited.object] whole ∧
      ∃ t, toType (allOf [closed.schema, unlimited.schema]) = .ok t ∧
        t.subtypeOf whole.ty = true ∧ whole.ty.subtypeOf t = true := by
  intro closed unlimited
  have hclosed : ∀ document available, closed.DescribedIn document available := fun document available =>
    ⟨"#", reads_ofType (t := closed.object.ty) (by decide) rfl _ _⟩
  have hunlimited : ∀ document available, unlimited.DescribedIn document available :=
    fun document available => ⟨"#", reads_ofType (t := unlimited.object.ty) (by decide) rfl _ _⟩
  have hboth : ∀ document available, ∀ branch ∈ [closed, unlimited],
      branch.DescribedIn document available := fun document available =>
    List.forall_mem_cons.mpr ⟨hclosed _ _, List.forall_mem_singleton.mpr (hunlimited _ _)⟩
  obtain ⟨whole, hwhole, hpools, hexchanged⟩ := allOf_pools_branches (List.cons_ne_nil _ _)
    (hboth (allOf [unlimited.schema, closed.schema]) (references (allOf [unlimited.schema, closed.schema])))
    (List.Perm.swap closed unlimited []) "#"
  exact ⟨whole, hwhole, hpools,
    hexchanged unlimited closed _ _ _ rfl (hunlimited _ _) (hclosed _ _)⟩

end JsonSchema

end SchemaInfer
