import SchemaInfer.Proofs.Differences
import SchemaInfer.Proofs.JsonSchemaExport
import Mathlib.Data.List.Permutation

/-!
# Schemas of equal types

Equal types may have their properties and alternatives in different orders, and so may their schemas.
Most of these orders are not compared: keys never are, nor `required` and `anyOf` on the way down from
the top of a document. But the schemas that an `anyOf` lists are compared as they stand, and with them
the orders inside. So equal types show no difference as long as nothing in a listed alternative comes in
an order, that is, no object in it demands two properties and no list of alternatives is in it.

Comparison for differences and comparison as they stand go down a schema in the same way, and the
induction over types is done once for both (`agrees_ofType`).
-/

namespace SchemaInfer

namespace Ty

variable {ps qs : Properties} {open₁ open₂ : Bool} {ms ns : List Ty}

theorem agree_of_object_beq (ha : (object ps open₁).WellFormed) (hb : (object qs open₂).WellFormed)
    (h : (object ps open₁ == object qs open₂) = true) :
    Entries.Agree (fun _ p q => SameProperty p q) ps qs := by
  obtain ⟨_, hps, _⟩ := object_beq_iff.mp h
  obtain ⟨_, hqs, _⟩ := object_beq_iff.mp (beq_symm ha hb h)
  refine .of_mem hps fun name hname => ?_
  obtain ⟨q, hq⟩ := Entries.exists_lookup_of_mem_keys hname
  obtain ⟨p, hp, _⟩ := hqs name q (Entries.mem_of_lookup hq)
  exact Entries.mem_keys_of_mem (Entries.mem_of_lookup hp)

theorem isOptional_of_sameProperty {p q : Property Ty} (h : SameProperty p q) :
    p.isOptional = q.isOptional := by
  simp only [Property.isOptional, h.required, h.minOccurs]

/-- The members of equal unions can be brought into step. -/
theorem exists_perm_of_union_beq (ha : (union ms).WellFormed) (hb : (union ns).WellFormed)
    (h : (union ms == union ns) = true) :
    ∃ ns', ns'.Perm ns ∧ List.Forall₂ (fun m n => (m == n) = true) ms ns' := by
  obtain ⟨hlength, hpartner⟩ := union_beq_iff.mp h
  obtain ⟨_, _, hunequal, hms⟩ := WellFormed.union_iff.mp ha
  obtain ⟨_, _, _, hns⟩ := WellFormed.union_iff.mp hb
  apply exists_perm_forall₂ _ hpartner (Nat.le_of_eq hlength.symm)
  refine hunequal.imp_of_mem fun {m m'} _ hm' hne n hn hmn hmn' => ?_
  have hequal := beq_trans hmn (beq_symm (hms m' hm') (hns n hn) hmn')
  rw [hne] at hequal
  cases hequal

theorem isNull_eq_of_beq {a b : Ty} (h : (a == b) = true) : a.isNull = b.isNull := by
  cases a with
  | null => rw [eq_of_primitive_beq rfl h]
  | _ =>
    cases b with
    | null => cases h
    | _ => rfl

/-- What is equal to a union of one type with null is one as well. -/
theorem exists_nullable_of_beq {m : Ty} (ha : (union ms).WellFormed) (hb : (union ns).WellFormed)
    (h : (union ms == union ns) = true) (hm : m.isNull = false)
    (hms : ms = [m, null] ∨ ms = [null, m]) :
    ∃ n, (m == n) = true ∧ n.isNull = false ∧ (ns = [n, null] ∨ ns = [null, n]) := by
  obtain ⟨ns', hperm, hns'⟩ := exists_perm_of_union_beq ha hb h
  rcases hms with rfl | rfl
  · obtain _ | ⟨hmn, _ | ⟨hnull, _ | _⟩⟩ := hns'
    obtain rfl := eq_of_primitive_beq rfl hnull
    exact ⟨_, hmn, (isNull_eq_of_beq hmn).symm.trans hm, List.perm_pair.mp hperm.symm⟩
  · obtain _ | ⟨hnull, _ | ⟨hmn, _ | _⟩⟩ := hns'
    obtain rfl := eq_of_primitive_beq rfl hnull
    exact ⟨_, hmn, (isNull_eq_of_beq hmn).symm.trans hm, (List.perm_pair.mp hperm.symm).symm⟩

end Ty

namespace JsonSchema

open Difference

variable {keyword : Option String} {s s' schema : Json} {es as : List (String × Json)} {t u : Ty}

/-! ### Schemas have distinct keys -/

theorem distinctKeys_describe {description : Option String} (h : schema.DistinctKeys) :
    (describe description schema).DistinctKeys := by
  unfold describe
  split
  · obtain ⟨hkeys, hvalues⟩ := Json.DistinctKeys.object_iff.mp h
    exact Json.DistinctKeys.object_iff.mpr ⟨Entries.nodup_keys_insert hkeys, hvalues.insert rfl⟩
  · exact h

theorem distinctKeys_anyOf {schemas : List Json} (h : ∀ schema ∈ schemas, schema.DistinctKeys) :
    (anyOf schemas).DistinctKeys := by
  refine Json.DistinctKeys.object_iff.mpr ⟨List.nodup_singleton _, ?_⟩
  exact Entries.All.cons_iff.mpr ⟨Json.DistinctKeys.array_iff.mpr h, .nil⟩

theorem distinctKeys_names {names : List String} :
    (Json.array (names.map .string)).DistinctKeys := by
  refine Json.DistinctKeys.array_iff.mpr (List.forall_mem_map.mpr fun _ _ => ?_)
  rfl

theorem distinctKeys_allowingNull (h : (Json.object es).DistinctKeys) :
    (allowingNull (.object es)).DistinctKeys := by
  rcases allowingNull_cases es with ⟨name, _, heq⟩ | heq
  · obtain ⟨hkeys, hvalues⟩ := Json.DistinctKeys.object_iff.mp h
    rw [heq]
    exact Json.DistinctKeys.object_iff.mpr ⟨Entries.nodup_keys_insert hkeys, hvalues.insert rfl⟩
  · rw [heq]
    apply distinctKeys_anyOf
    simp only [List.forall_mem_cons]
    exact ⟨h, rfl, List.forall_mem_nil _⟩

theorem distinctKeys_ofType (ht : t.WellFormed) (h : ofType t = .ok schema) :
    schema.DistinctKeys := by
  induction t generalizing schema with
  | string | number | integer | boolean | null | any =>
    cases h
    decide
  | var name => cases h
  | function params r _ _ => cases h
  | array t ih =>
    obtain ⟨items, hitems, rfl⟩ := ofType_array_eq_ok_iff.mp h
    refine Json.DistinctKeys.object_iff.mpr ⟨by simp [Entries.keys], ?_⟩
    exact Entries.All.cons_iff.mpr ⟨rfl, Entries.All.cons_iff.mpr
      ⟨ih (Ty.WellFormed.array_iff.mp ht) hitems, .nil⟩⟩
  | object ps isOpen ih =>
    obtain ⟨hkeys, hps⟩ := Ty.WellFormed.object_iff.mp ht
    obtain ⟨schemas, hschemas, rfl⟩ := ofType_object_eq_ok_iff.mp h
    have hproperties : (Json.object schemas).DistinctKeys := by
      refine Json.DistinctKeys.object_iff.mpr ⟨keys_propertySchemas hschemas ▸ hkeys, ?_⟩
      intro name s hs
      obtain ⟨p, schema, hp, hschema, rfl⟩ := exists_property hschemas hs
      exact distinctKeys_describe (ih name p hp (hps name p hp) hschema)
    refine Json.DistinctKeys.object_iff.mpr ⟨by simp [Entries.keys], ?_⟩
    simp only [Entries.All.cons_iff]
    exact ⟨rfl, hproperties, distinctKeys_names, rfl, .nil⟩
  | union ms ih =>
    obtain ⟨_, _, _, hms⟩ := Ty.WellFormed.union_iff.mp ht
    rcases ofType_union_cases h with ⟨m, inner, _, hpair, hinner, rfl⟩ | ⟨_, schemas, hschemas, rfl⟩
    · have hm := Ty.mem_of_nullable hpair
      obtain ⟨entries, rfl, _⟩ := exists_isExported hinner
      exact distinctKeys_allowingNull (ih m hm (hms m hm) hinner)
    · apply distinctKeys_anyOf
      intro schema hmem
      obtain ⟨m, hm, hschema⟩ := exists_related_of_mem hschemas.flip hmem
      exact ih m hm (hms m hm) hschema

theorem nodup_keys_ofType (ht : t.WellFormed) (h : ofType t = .ok (.object es)) :
    (Entries.keys es).Nodup :=
  (Json.DistinctKeys.object_iff.mp (distinctKeys_ofType ht h)).1

/-! ### Ways to compare -/

/-- A relation between the values of keywords that holds of equal values, goes down objects key by key,
and tells texts apart. -/
structure Comparison (Agrees : Option String → Json → Json → Prop) : Prop where
  of_same : ∀ {keyword e a}, e.DistinctKeys → e.same a = true → Agrees keyword e a
  object_iff : ∀ {keyword es as}, (Entries.keys es).Nodup → (Entries.keys as).Nodup →
    (Agrees keyword (.object es) (.object as) ↔ Entries.Agree (fun key => Agrees (some key)) es as)
  string?_eq : ∀ {keyword e a}, Agrees keyword e a → e.string? = a.string?

theorem comparison_same : Comparison fun _ e a => e.same a = true where
  of_same _ h := h
  object_iff hes has := Json.same_object_iff_agree hes has
  string?_eq := by
    intro _ e a h
    cases e <;> cases a <;> simp_all [Json.same, Json.string?]

theorem comparison_ofJson : Comparison fun keyword e a => ofJson keyword e a = [] where
  of_same he h := ofJson_eq_nil_of_same he h
  object_iff hes _ := ofJson_object_eq_nil_iff_agree hes
  string?_eq := by
    intro _ e a h
    cases e <;> cases a <;> simp_all [ofJson, Json.same, Json.string?]

namespace Comparison

variable {Agrees : Option String → Json → Json → Prop} (hA : Comparison Agrees)
include hA

theorem refl (h : s.DistinctKeys) : Agrees keyword s s :=
  hA.of_same h (Json.same_refl h)

theorem describe (hes : (Entries.keys es).Nodup) (has : (Entries.keys as).Nodup)
    (h : Agrees keyword (.object es) (.object as)) (description : Option String) :
    Agrees keyword (describe description (.object es)) (describe description (.object as)) := by
  cases description with
  | none => exact h
  | some text =>
    refine (hA.object_iff (Entries.nodup_keys_insert hes) (Entries.nodup_keys_insert has)).mpr ?_
    exact ((hA.object_iff hes has).mp h).insert (hA.refl rfl)

theorem allowingNull (hes : (Json.object es).DistinctKeys) (has : (Entries.keys as).Nodup)
    (h : Agrees keyword (.object es) (.object as))
    (hplain : (Json.object es).stringAt? "type" = none → es = as) :
    Agrees keyword (allowingNull (.object es)) (allowingNull (.object as)) := by
  obtain ⟨hkeys, _⟩ := Json.DistinctKeys.object_iff.mp hes
  have hagree := (hA.object_iff hkeys has).mp h
  have hname : (Json.object es).stringAt? "type" = (Json.object as).stringAt? "type" := by
    change (es.lookup "type").bind Json.string? = (as.lookup "type").bind Json.string?
    cases he : es.lookup "type" with
    | some e =>
      obtain ⟨a, ha, hea⟩ := hagree.exists_right "type" he
      rw [ha]
      exact hA.string?_eq hea
    | none =>
      rw [Entries.lookup_eq_none_iff, hagree.mem_keys_iff, ← Entries.lookup_eq_none_iff] at he
      rw [he]
  cases htype : (Json.object es).stringAt? "type" with
  | none =>
    obtain rfl := hplain htype
    exact hA.refl (distinctKeys_allowingNull hes)
  | some name =>
    simp only [JsonSchema.allowingNull, ← hname, htype]
    refine (hA.object_iff (Entries.nodup_keys_insert hkeys) (Entries.nodup_keys_insert has)).mpr ?_
    exact hagree.insert (hA.refl rfl)

end Comparison

/-! ### Equal types -/

section Equal

variable {ps qs : Properties} {open₁ open₂ : Bool} {ms ns : List Ty}

theorem agree_propertySchemas {schemas : List (String × Json)}
    (h : List.Forall₂ IsPropertySchema ps schemas) :
    Entries.Agree (fun _ p s => ∃ schema, ofType p.ty = .ok schema ∧ s = describe p.description schema)
      ps schemas := by
  induction h with
  | nil => exact .nil
  | cons hfirst _ ih =>
    obtain ⟨schema, hschema, rfl⟩ := hfirst
    exact ih.cons ⟨schema, hschema, rfl⟩

theorem demanded_perm_of_beq (ha : (Ty.object ps open₁).WellFormed)
    (hb : (Ty.object qs open₂).WellFormed) (h : (Ty.object ps open₁ == Ty.object qs open₂) = true) :
    (demanded ps).Perm (demanded qs) := by
  obtain ⟨hps, _⟩ := Ty.WellFormed.object_iff.mp ha
  obtain ⟨hqs, _⟩ := Ty.WellFormed.object_iff.mp hb
  have hagree := Ty.agree_of_object_beq ha hb h
  have hnodup : ∀ {rs : Properties}, (Entries.keys rs).Nodup → (demanded rs).Nodup :=
    fun hrs => hrs.sublist (List.filter_sublist.map _)
  refine (List.perm_ext_iff_of_nodup (hnodup hps) (hnodup hqs)).mpr fun name => ?_
  rw [mem_demanded, mem_demanded]
  constructor
  · rintro ⟨p, hp, hoptional⟩
    obtain ⟨q, hq, hsame⟩ := hagree.exists_right name ((Entries.lookup_eq_some_iff_mem hps).mpr hp)
    exact ⟨q, Entries.mem_of_lookup hq, Ty.isOptional_of_sameProperty hsame ▸ hoptional⟩
  · rintro ⟨q, hq, hoptional⟩
    obtain ⟨p, hp, hsame⟩ := hagree.exists_left name ((Entries.lookup_eq_some_iff_mem hqs).mpr hq)
    exact ⟨p, Entries.mem_of_lookup hp, (Ty.isOptional_of_sameProperty hsame).trans hoptional⟩

/-- Only `any` has a schema without a `type`, unions aside. -/
theorem eq_any_of_stringAt?_eq_none (h : ofType t = .ok schema) (ht : t.isUnion = false)
    (htype : schema.stringAt? "type" = none) : t = .any := by
  cases t with
  | any => rfl
  | string | number | integer | boolean | null => cases h; cases htype
  | array t =>
    obtain ⟨_, _, rfl⟩ := ofType_array_eq_ok_iff.mp h
    cases htype
  | object ps isOpen =>
    obtain ⟨_, _, rfl⟩ := ofType_object_eq_ok_iff.mp h
    cases htype
  | union ms => cases ht
  | var name => cases h
  | function params r => cases h

variable {Agrees : Option String → Json → Json → Prop} {Keeps : Ty → Prop}

theorem agrees_properties (hA : Comparison Agrees) {schemas schemas' : List (String × Json)}
    (hps : (Ty.object ps open₁).WellFormed) (hqs : (Ty.object qs open₂).WellFormed)
    (heq : (Ty.object ps open₁ == Ty.object qs open₂) = true)
    (hschemas : List.Forall₂ IsPropertySchema ps schemas)
    (hschemas' : List.Forall₂ IsPropertySchema qs schemas')
    (h : ∀ name p q, (name, p) ∈ ps → (name, q) ∈ qs → (p.ty == q.ty) = true → ∀ s s',
      ofType p.ty = .ok s → ofType q.ty = .ok s' → Agrees (some name) s s') :
    Agrees keyword (.object schemas) (.object schemas') := by
  obtain ⟨hkeys, hpswf⟩ := Ty.WellFormed.object_iff.mp hps
  obtain ⟨hkeys', hqswf⟩ := Ty.WellFormed.object_iff.mp hqs
  rw [hA.object_iff (keys_propertySchemas hschemas ▸ hkeys) (keys_propertySchemas hschemas' ▸ hkeys')]
  have hsame : Entries.Agree
      (fun name p q => (name, p) ∈ ps ∧ (name, q) ∈ qs ∧ Ty.SameProperty p q) ps qs :=
    (Ty.agree_of_object_beq hps hqs heq).imp fun _ _ _ hp hq hsame => ⟨hp, hq, hsame⟩
  have hchain := (agree_propertySchemas hschemas).flip.trans
    (hsame.trans (agree_propertySchemas hschemas'))
  refine hchain.imp ?_
  rintro name _ _ _ _ ⟨p, ⟨s, hs, rfl⟩, q, ⟨hp, hq, hsame⟩, s', hs', rfl⟩
  have hagrees := h name p q hp hq hsame.ty s s' hs hs'
  obtain ⟨es, rfl, _⟩ := exists_isExported hs
  obtain ⟨as, rfl, _⟩ := exists_isExported hs'
  rw [hsame.description]
  exact hA.describe (nodup_keys_ofType (hpswf name p hp) hs) (nodup_keys_ofType (hqswf name q hq) hs')
    hagrees _

/-- Equal types have schemas that agree, whatever way to compare it is, if it does not see the orders in
which equal types may differ: that of the demanded properties of an object, and that of the members of
a union which are listed. -/
theorem agrees_ofType (hA : Comparison Agrees)
    (hrequired : ∀ ps isOpen names, Keeps (.object ps isOpen) → (demanded ps).Perm names →
      Agrees (some "required") (.array ((demanded ps).map .string)) (.array (names.map .string)))
    (hlisted : ∀ ms ns schemas schemas', Keeps (.union ms) → Ty.isNullable ms = false →
      (Ty.union ms).WellFormed → (Ty.union ns).WellFormed → (Ty.union ms == Ty.union ns) = true →
      List.Forall₂ (fun m s => ofType m = .ok s) ms schemas →
      List.Forall₂ (fun n s => ofType n = .ok s) ns schemas' →
      Agrees (some "anyOf") (.array schemas) (.array schemas'))
    (ht : t.WellFormed) (hu : u.WellFormed) (hkeeps : t.Everywhere Keeps) (heq : (t == u) = true)
    (hs : ofType t = .ok s) (hs' : ofType u = .ok s') : Agrees keyword s s' := by
  induction t generalizing u s s' keyword with
  | string | number | integer | boolean | null | any =>
    obtain rfl := Ty.eq_of_primitive_beq rfl heq
    cases hs
    cases hs'
    exact hA.refl (by decide)
  | var name => cases hs
  | function params r _ _ => cases hs
  | array t ih =>
    obtain ⟨u, rfl, htu⟩ := Ty.exists_of_array_beq heq
    obtain ⟨items, hitems, rfl⟩ := ofType_array_eq_ok_iff.mp hs
    obtain ⟨items', hitems', rfl⟩ := ofType_array_eq_ok_iff.mp hs'
    refine (hA.object_iff (nodup_keys_ofType ht hs) (nodup_keys_ofType hu hs')).mpr ?_
    refine .cons (hA.refl rfl) (.cons ?_ .nil)
    exact ih (Ty.WellFormed.array_iff.mp ht) (Ty.WellFormed.array_iff.mp hu)
      (Ty.Everywhere.array_iff.mp hkeeps).2 htu hitems hitems'
  | object ps isOpen ih =>
    obtain ⟨qs, rfl, _⟩ := Ty.exists_of_object_beq heq
    obtain ⟨schemas, hschemas, rfl⟩ := ofType_object_eq_ok_iff.mp hs
    obtain ⟨schemas', hschemas', rfl⟩ := ofType_object_eq_ok_iff.mp hs'
    obtain ⟨hkeeps, hparts⟩ := Ty.Everywhere.object_iff.mp hkeeps
    have hps := (Ty.WellFormed.object_iff.mp ht).2
    have hqs := (Ty.WellFormed.object_iff.mp hu).2
    refine (hA.object_iff (nodup_keys_ofType ht hs) (nodup_keys_ofType hu hs')).mpr ?_
    refine .cons (hA.refl rfl) (.cons ?_ (.cons ?_ (.cons (hA.refl rfl) .nil)))
    · refine agrees_properties hA ht hu heq hschemas hschemas' ?_
      intro name p q hp hq hty s s' hs hs'
      exact ih name p hp (hps name p hp) (hqs name q hq) (hparts name p hp) hty hs hs'
    · exact hrequired ps isOpen _ hkeeps (demanded_perm_of_beq ht hu heq)
  | union ms ih =>
    obtain ⟨ns, rfl, _⟩ := Ty.exists_of_union_beq heq
    obtain ⟨hkeeps, hparts⟩ := Ty.Everywhere.union_iff.mp hkeeps
    obtain ⟨_, hflat, _, hms⟩ := Ty.WellFormed.union_iff.mp ht
    obtain ⟨_, _, _, hns⟩ := Ty.WellFormed.union_iff.mp hu
    rcases ofType_union_cases hs with ⟨m, inner, hm, hpair, hinner, rfl⟩ | ⟨hnot, schemas, hschemas, rfl⟩
    · obtain ⟨n, hmn, hn, hpair'⟩ := Ty.exists_nullable_of_beq ht hu heq hm hpair
      obtain ⟨inner', hinner', rfl⟩ := ofType_nullable hn hpair' hs'
      have hmem := Ty.mem_of_nullable hpair
      have hmem' := Ty.mem_of_nullable hpair'
      have hagrees : Agrees keyword inner inner' :=
        ih m hmem (hms m hmem) (hns n hmem') (hparts m hmem) hmn hinner hinner'
      obtain ⟨es, rfl, _⟩ := exists_isExported hinner
      obtain ⟨as, rfl, _⟩ := exists_isExported hinner'
      refine hA.allowingNull (distinctKeys_ofType (hms m hmem) hinner)
        (nodup_keys_ofType (hns n hmem') hinner') hagrees fun htype => ?_
      obtain rfl := eq_any_of_stringAt?_eq_none hinner (hflat m hmem) htype
      obtain rfl := Ty.eq_of_primitive_beq rfl hmn
      cases hinner
      cases hinner'
      rfl
    · rcases ofType_union_cases hs' with ⟨n, _, hn, hpair, _, _⟩ | ⟨_, schemas', hschemas', rfl⟩
      · obtain ⟨m, _, hm, hpair'⟩ := Ty.exists_nullable_of_beq hu ht (Ty.beq_symm ht hu heq) hn hpair
        rw [Ty.isNullable_iff.mpr ⟨m, hm, hpair'⟩] at hnot
        cases hnot
      · refine (hA.object_iff (nodup_keys_ofType ht hs) (nodup_keys_ofType hu hs')).mpr (.cons ?_ .nil)
        exact hlisted ms ns schemas schemas' hkeeps hnot ht hu heq hschemas hschemas'

end Equal

end JsonSchema

/-! ### Alternatives without an order -/

namespace Ty

/-- At most one property is demanded of an object, and a union is one type besides null. -/
def hasNoOrder : Ty → Bool
  | object ps _ => decide ((JsonSchema.demanded ps).length ≤ 1)
  | union ms => isNullable ms
  | _ => true

/-- Nothing in the schema of the type comes in an order. -/
def Orderless (t : Ty) : Prop :=
  t.Everywhere fun s => s.hasNoOrder = true

instance : DecidablePred Orderless :=
  inferInstanceAs (DecidablePred (Everywhere fun s => s.hasNoOrder = true))

/-- The members of a union that its schema lists. -/
def listed : Ty → List Ty
  | union ms => if isNullable ms then [] else ms
  | _ => []

def OrderlessAlternatives (t : Ty) : Prop :=
  t.Everywhere fun s => ∀ m ∈ s.listed, m.Orderless

instance : DecidablePred OrderlessAlternatives :=
  inferInstanceAs (DecidablePred (Everywhere fun s => ∀ m ∈ s.listed, m.Orderless))

end Ty

namespace JsonSchema

open Difference

variable {s s' : Json} {t u : Ty} {keyword : Option String}

/-- Equal types without an order have equal schemas. -/
theorem same_of_orderless (ht : t.WellFormed) (hu : u.WellFormed) (hno : t.Orderless)
    (heq : (t == u) = true) (hs : ofType t = .ok s) (hs' : ofType u = .ok s') : s.same s' = true := by
  refine @agrees_ofType none _ _ _ _ _ _ comparison_same ?_ ?_ ht hu hno heq hs hs'
  · intro ps isOpen names hlength hperm
    have hlength : (demanded ps).length ≤ 1 := of_decide_eq_true hlength
    obtain rfl : demanded ps = names := by
      rcases hps : demanded ps with _ | ⟨name, _ | ⟨_, _⟩⟩
      · rw [hps] at hperm
        exact hperm.nil_eq
      · rw [hps] at hperm
        exact List.singleton_perm.mp hperm
      · simp [hps] at hlength
    exact Json.same_refl distinctKeys_names
  · intro ms ns schemas schemas' hnullable hnot
    rw [Ty.hasNoOrder, hnot] at hnullable
    cases hnullable

/-- Equal types whose listed alternatives have no order have schemas without a difference. -/
theorem ofJson_eq_nil_of_beq (ht : t.WellFormed) (hu : u.WellFormed) (hno : t.OrderlessAlternatives)
    (heq : (t == u) = true) (hs : ofType t = .ok s) (hs' : ofType u = .ok s') :
    ofJson keyword s s' = [] := by
  refine agrees_ofType comparison_ofJson ?_ ?_ ht hu hno heq hs hs'
  · intro ps isOpen names _ hperm
    have hdemanded := Json.DistinctKeys.array_iff.mp (@distinctKeys_names (demanded ps))
    have hnames := Json.DistinctKeys.array_iff.mp (@distinctKeys_names names)
    refine (ofJson_unordered_eq_nil_iff (by decide)).mpr ?_
    apply sameMembers_of_perm hdemanded hnames (hperm.map _)
    exact List.forall₂_same.mpr fun name hname => Json.same_refl (hdemanded name hname)
  · intro ms ns schemas schemas' hno hnot ht hu heq hschemas hschemas'
    obtain ⟨_, _, _, hms⟩ := Ty.WellFormed.union_iff.mp ht
    obtain ⟨_, _, _, hns⟩ := Ty.WellFormed.union_iff.mp hu
    have horderless : ∀ m ∈ ms, m.Orderless := by
      simpa [Ty.listed, hnot] using hno
    -- the members of `u` are reordered after those of `t`, and their schemas with them
    obtain ⟨ns', hperm, hns'⟩ := Ty.exists_perm_of_union_beq ht hu heq
    obtain ⟨zs, hzs, hzsperm⟩ := List.perm_comp_forall₂ hperm hschemas'
    have hpartner : List.Forall₂ (fun m z => ∃ n ∈ ns, (m == n) = true ∧ ofType n = .ok z) ms zs :=
      forall₂_comp hns' hzs fun m n z _ hn hmn hz => ⟨n, hperm.subset hn, hmn, hz⟩
    have hsame : List.Forall₂ (fun x z => x.same z = true) schemas zs := by
      refine forall₂_comp hschemas.flip hpartner ?_
      rintro x m z _ hm hx ⟨n, hn, hmn, hz⟩
      exact same_of_orderless (hms m hm) (hns n hn) (horderless m hm) hmn hx hz
    refine (ofJson_unordered_eq_nil_iff (by decide)).mpr (sameMembers_of_perm ?_ ?_ hzsperm hsame)
    · intro x hx
      obtain ⟨m, hm, hschema⟩ := exists_related_of_mem hschemas.flip hx
      exact distinctKeys_ofType (hms m hm) hschema
    · intro x hx
      obtain ⟨n, hn, hschema⟩ := exists_related_of_mem hschemas'.flip hx
      exact distinctKeys_ofType (hns n hn) hschema

/-- **Equal types show no difference as far as listed alternatives have no order.** Equal well-formed
data types have schemas. The first has no difference to itself, and it has none to the second if no
object in a listed alternative demands two properties and no alternatives are listed in one. -/
theorem ofType_no_difference_of_beq (ht : t.WellFormed) (hu : u.WellFormed) (htdata : t.IsData)
    (hudata : u.IsData) (heq : (t == u) = true) :
    ∃ s s', ofType t = .ok s ∧ ofType u = .ok s' ∧ ofJson none s s = [] ∧
      (t.OrderlessAlternatives → ofJson none s s' = []) := by
  obtain ⟨s, hs⟩ := exists_ofType htdata
  obtain ⟨s', hs'⟩ := exists_ofType hudata
  have hdistinct := distinctKeys_ofType ht hs
  refine ⟨s, s', hs, hs', ofJson_eq_nil_of_same hdistinct (Json.same_refl hdistinct), fun hno => ?_⟩
  exact ofJson_eq_nil_of_beq ht hu hno heq hs hs'

/-- Properties, demanded names, null and alternatives all stand in another order. -/
theorem ofType_no_difference_of_beq_order :
    let note : Property Ty := { Property.optional .string with description := some "free text" }
    let line : Ty := .object [("sku", Property.mandatory .string), ("note", note)] false
    let line' : Ty := .object [("note", note), ("sku", Property.mandatory .string)] false
    let t : Ty := .object
      [("id", Property.mandatory .integer), ("parent", Property.mandatory (.union [.null, .any])),
        ("lines", Property.mandatory (.array (.union [line, .string, .array (.union [line, .null])])))]
      true
    let u : Ty := .object
      [("lines", Property.mandatory (.array (.union [.array (.union [.null, line']), line', .string]))),
        ("parent", Property.mandatory (.union [.any, .null])), ("id", Property.mandatory .integer)] true
    (t.WellFormed ∧ u.WellFormed ∧ t.IsData ∧ u.IsData ∧ (t == u) = true ∧ t.OrderlessAlternatives) ∧
      ∃ s s', ofType t = .ok s ∧ ofType u = .ok s' ∧ ofJson none s s' = [] := by
  intro note line line' t u
  have ht : t.WellFormed := by decide
  have hu : u.WellFormed := by decide
  have htdata : t.IsData := by decide
  have hudata : u.IsData := by decide
  have heq : (t == u) = true := by decide
  have hno : t.OrderlessAlternatives := by decide
  obtain ⟨s, s', hs, hs', _, hnone⟩ := ofType_no_difference_of_beq ht hu htdata hudata heq
  exact ⟨⟨ht, hu, htdata, hudata, heq, hno⟩, s, s', hs, hs', hnone hno⟩

/-- The demanded names of an alternative in another order are reported. -/
theorem ofType_difference_of_reordered_alternative :
    let t : Ty := .union
      [.object [("a", Property.mandatory .string), ("b", Property.mandatory .integer)] false, .string]
    let u : Ty := .union
      [.object [("b", Property.mandatory .integer), ("a", Property.mandatory .string)] false, .string]
    (t.WellFormed ∧ u.WellFormed ∧ t.IsData ∧ u.IsData ∧ (t == u) = true) ∧
      ∃ s s', ofType t = .ok s ∧ ofType u = .ok s' ∧
        (ofJson none s s').map (·.place) = [.part ["anyOf"]] := by
  intro t u
  refine ⟨by decide, _, _, rfl, rfl, ?_⟩
  rfl

end JsonSchema

end SchemaInfer
