import SchemaInfer.Proofs.Equality
import Mathlib.Data.List.Zip

/-!
# Subtyping is a preorder

`Ty.subtypeOf` is a decision procedure: it first tries equality and then the rules in a fixed order.
`Ty.Fits` states the rules without an order and without the shortcut. The two agree on irredundant
types, and so on well-formed ones: equal types fit by the rules, and where two rules apply to the same
pair the one that `subtypeOf` tries loses nothing. Transitivity is proved of the rules, by induction on the sizes of the
three types together, because the parameters of a function type change sides.
-/

namespace SchemaInfer.Ty

variable {a b c s t r : Ty} {ps qs : Properties} {open₁ open₂ : Bool}
  {ms ns params₁ params₂ : List Ty}

/-! ### The rules -/

/-- The subtype rules. In the rule for objects, what the second type demands has to be demanded by the
first, and its type has to fit. -/
inductive Fits : Ty → Ty → Prop
  | any {a : Ty} : Fits a any
  | primitive {a : Ty} : a.isPrimitive = true → Fits a a
  | var {name : String} : Fits (var name) (var name)
  | integer : Fits integer number
  | array {s t : Ty} : Fits s t → Fits (array s) (array t)
  | object {ps qs : Properties} {open₁ open₂ : Bool} :
    (open₂ = false → open₁ = false ∧ ∀ name ∈ Entries.keys ps, name ∈ Entries.keys qs) →
    (∀ name q, (name, q) ∈ qs → q.isOptional = false →
      ∃ p, ps.lookup name = some p ∧ p.isOptional = false) →
    (∀ name p q, ps.lookup name = some p → (name, q) ∈ qs → q.isOptional = false →
      Fits p.ty q.ty) →
    Fits (object ps open₁) (object qs open₂)
  | function {params₁ params₂ : List Ty} {r s : Ty} : params₁.length = params₂.length →
    (∀ p q, (p, q) ∈ params₁.zip params₂ → Fits q p) → Fits r s →
    Fits (function params₁ r) (function params₂ s)
  | unionLeft {ms : List Ty} {b : Ty} : (∀ m ∈ ms, Fits m b) → Fits (union ms) b
  | unionRight {n a : Ty} {ns : List Ty} : n ∈ ns → Fits a n → Fits a (union ns)

theorem exists_between_of_mem_zip {α : Type} {x z : α} {xs ys zs : List α}
    (hxy : xs.length = ys.length) (hyz : ys.length = zs.length) (h : (x, z) ∈ xs.zip zs) :
    ∃ y, (x, y) ∈ xs.zip ys ∧ (y, z) ∈ ys.zip zs := by
  obtain ⟨i, hi, hget⟩ := List.mem_iff_getElem.mp h
  rw [List.length_zip] at hi
  rw [List.getElem_zip] at hget
  obtain ⟨rfl, rfl⟩ := Prod.mk.inj hget
  refine ⟨ys[i], List.mem_iff_getElem.mpr ⟨i, ?_, ?_⟩, List.mem_iff_getElem.mpr ⟨i, ?_, ?_⟩⟩
  · rw [List.length_zip]; omega
  · exact List.getElem_zip
  · rw [List.length_zip]; omega
  · exact List.getElem_zip

/-- The rule for objects composes where the types of the properties do. -/
theorem fits_object_trans {rs : Properties} {open₃ : Bool}
    (hab : Fits (object ps open₁) (object qs open₂))
    (hbc : Fits (object qs open₂) (object rs open₃))
    (htrans : ∀ name p q r, (name, p) ∈ ps → (name, q) ∈ qs → (name, r) ∈ rs →
      Fits p.ty q.ty → Fits q.ty r.ty → Fits p.ty r.ty) :
    Fits (object ps open₁) (object rs open₃) := by
  cases hab with
  | primitive hprimitive => cases hprimitive
  | object hopen₁ hfound₁ hfits₁ =>
  cases hbc with
  | primitive hprimitive => cases hprimitive
  | object hopen₂ hfound₂ hfits₂ =>
  refine .object (fun hclosed₃ => ?_) (fun name r hr hdemanded => ?_)
    (fun name p r hp hr hdemanded => ?_)
  · obtain ⟨hclosed₂, hkeys₂⟩ := hopen₂ hclosed₃
    obtain ⟨hclosed₁, hkeys₁⟩ := hopen₁ hclosed₂
    exact ⟨hclosed₁, fun name hname => hkeys₂ name (hkeys₁ name hname)⟩
  · obtain ⟨q, hq, hqdemanded⟩ := hfound₂ name r hr hdemanded
    exact hfound₁ name q (Entries.mem_of_lookup hq) hqdemanded
  · obtain ⟨q, hq, hqdemanded⟩ := hfound₂ name r hr hdemanded
    have hqmem := Entries.mem_of_lookup hq
    exact htrans name p q r (Entries.mem_of_lookup hp) hqmem hr
      (hfits₁ name p q hp hqmem hqdemanded) (hfits₂ name q r hq hr hdemanded)

/-- The rule for functions composes where the results do and the parameters do the other way round. -/
theorem fits_function_trans {params₃ : List Ty} {u : Ty}
    (hab : Fits (function params₁ r) (function params₂ s))
    (hbc : Fits (function params₂ s) (function params₃ u))
    (hparams : ∀ p ∈ params₁, ∀ q ∈ params₂, ∀ k ∈ params₃, Fits k q → Fits q p → Fits k p)
    (hresult : Fits r s → Fits s u → Fits r u) :
    Fits (function params₁ r) (function params₃ u) := by
  cases hab with
  | primitive hprimitive => cases hprimitive
  | function hlength₁ hfits₁ hr₁ =>
  cases hbc with
  | primitive hprimitive => cases hprimitive
  | function hlength₂ hfits₂ hr₂ =>
  refine .function (hlength₁.trans hlength₂) (fun p k hmem => ?_) (hresult hr₁ hr₂)
  obtain ⟨q, hpq, hqk⟩ := exists_between_of_mem_zip hlength₁ hlength₂ hmem
  obtain ⟨hp, hq⟩ := List.of_mem_zip hpq
  exact hparams p hp q hq k (List.of_mem_zip hqk).2 (hfits₂ q k hqk) (hfits₁ p q hpq)

/-- The rules are transitive. The induction is on the three sizes together: every premise is about
smaller types, and in the rule for functions the first and the third type trade places. -/
theorem Fits.trans {a b c : Ty} (hab : Fits a b) (hbc : Fits b c) : Fits a c := by
  induction hsize : sizeOf a + sizeOf b + sizeOf c using Nat.strongRecOn generalizing a b c with
  | _ size ih =>
  subst hsize
  -- a union above `b` is left for the member of it that `b` fits
  have below_member : ∀ {n ns}, n ∈ ns → c = union ns → Fits b n → Fits a (union ns) := by
    rintro n ns hn rfl hfit
    have hlt := sizeOf_lt_union hn
    exact .unionRight hn (ih _ (by omega) hab hfit rfl)
  cases hab with
  | any =>
    -- nothing but `any` and the unions that hold it is above `any`
    cases hbc with
    | any | primitive _ => exact .any
    | unionRight hn hfit => exact below_member hn rfl hfit
  | primitive _ | var => exact hbc
  | integer =>
    cases hbc with
    | any => exact .any
    | primitive _ => exact .integer
    | unionRight hn hfit => exact below_member hn rfl hfit
  | array hst =>
    cases hbc with
    | any => exact .any
    | primitive hprimitive => cases hprimitive
    | array htu =>
      refine .array (ih _ ?_ hst htu rfl)
      simp only [array.sizeOf_spec]
      omega
    | unionRight hn hfit => exact below_member hn rfl hfit
  | object hopen hfound hfits =>
    cases hbc with
    | any => exact .any
    | primitive hprimitive => cases hprimitive
    | object hopen' hfound' hfits' =>
      refine fits_object_trans (.object hopen hfound hfits) (.object hopen' hfound' hfits')
        fun name p q r hp hq hr hpq hqr => ih _ ?_ hpq hqr rfl
      exact Nat.add_lt_add (Nat.add_lt_add (sizeOf_lt_object hp) (sizeOf_lt_object hq))
        (sizeOf_lt_object hr)
    | unionRight hn hfit => exact below_member hn rfl hfit
  | function hlength hparams hresult =>
    cases hbc with
    | any => exact .any
    | primitive hprimitive => cases hprimitive
    | function hlength' hparams' hresult' =>
      refine fits_function_trans (.function hlength hparams hresult)
        (.function hlength' hparams' hresult') (fun p hp q hq k hk hkq hqp => ih _ ?_ hkq hqp rfl)
        (fun hrs hsu => ih _ ?_ hrs hsu rfl)
      · have hswap : sizeOf k + sizeOf q + sizeOf p = sizeOf p + sizeOf q + sizeOf k := by omega
        rw [hswap]
        exact Nat.add_lt_add (Nat.add_lt_add (sizeOf_param_lt_function hp)
          (sizeOf_param_lt_function hq)) (sizeOf_param_lt_function hk)
      · exact Nat.add_lt_add (Nat.add_lt_add sizeOf_result_lt_function sizeOf_result_lt_function)
          sizeOf_result_lt_function
    | unionRight hn hfit => exact below_member hn rfl hfit
  | unionLeft hall =>
    refine .unionLeft fun m hm => ih _ ?_ (hall m hm) hbc rfl
    have hlt := sizeOf_lt_union hm
    omega
  | unionRight hn hfit =>
    cases hbc with
    | any => exact .any
    | primitive hprimitive => cases hprimitive
    | unionLeft hall =>
      refine ih _ ?_ hfit (hall _ hn) rfl
      have hlt := sizeOf_lt_union hn
      omega
    | unionRight hk hfit' => exact below_member hk rfl hfit'

/-! ### Equal types fit -/

theorem SameProperty.isOptional {p q : Property Ty} (h : SameProperty p q) :
    p.isOptional = q.isOptional := by
  simp [Property.isOptional, h.required, h.minOccurs]

/-- The properties of equal objects fit where their types do. -/
theorem fits_object_of_beq (ha : (object ps open₁).Irredundant)
    (hb : (object qs open₂).Irredundant) (hab : (object ps open₁ == object qs open₂) = true)
    (hfits : ∀ name p q, (name, p) ∈ ps → (name, q) ∈ qs → (p.ty == q.ty) = true →
      Fits p.ty q.ty) :
    Fits (object ps open₁) (object qs open₂) := by
  obtain ⟨_, hpq, rfl⟩ := object_beq_iff.mp hab
  obtain ⟨_, hqp, _⟩ := object_beq_iff.mp (ha.beq_symm hb hab)
  obtain ⟨hkeys, _⟩ := Irredundant.object_iff.mp hb
  refine .object (fun hclosed => ⟨hclosed, fun name hname => ?_⟩) (fun name q hq hdemanded => ?_)
    (fun name p q hp hq _ => ?_)
  · obtain ⟨p, hp⟩ := Entries.exists_lookup_of_mem_keys hname
    obtain ⟨q, hq, _⟩ := hpq name p (Entries.mem_of_lookup hp)
    exact Entries.mem_keys_of_mem (Entries.mem_of_lookup hq)
  · obtain ⟨p, hp, hsame⟩ := hqp name q hq
    exact ⟨p, hp, hsame.isOptional.symm.trans hdemanded⟩
  · obtain ⟨q', hq', hsame⟩ := hpq name p (Entries.mem_of_lookup hp)
    obtain rfl : q = q' := Option.some.inj
      (((Entries.lookup_eq_some_iff_mem hkeys).mpr hq).symm.trans hq')
    exact hfits name p q (Entries.mem_of_lookup hp) hq hsame.ty

/-- Objects with the same keys fit where what the second demands is demanded by the first and fits. -/
theorem fits_object_of_same_keys {isOpen : Bool}
    (hkeys : ∀ name, name ∈ Entries.keys ps ↔ name ∈ Entries.keys qs)
    (h : ∀ name p q, ps.lookup name = some p → (name, q) ∈ qs → q.isOptional = false →
      p.isOptional = false ∧ Fits p.ty q.ty) :
    Fits (object ps isOpen) (object qs isOpen) := by
  refine .object (fun hclosed => ⟨hclosed, fun name => (hkeys name).mp⟩)
    (fun name q hq hdemanded => ?_) (fun name p q hp hq hdemanded => (h name p q hp hq hdemanded).2)
  have hname : name ∈ Entries.keys ps := (hkeys name).mpr (Entries.mem_keys_of_mem hq)
  obtain ⟨p, hp⟩ := Entries.exists_lookup_of_mem_keys hname
  exact ⟨p, hp, (h name p q hp hq hdemanded).1⟩

theorem fits_both_object {isOpen : Bool} (hps : (Entries.keys ps).Nodup)
    (hkeys : ∀ name, name ∈ Entries.keys ps ↔ name ∈ Entries.keys qs)
    (h : ∀ name q, (name, q) ∈ qs → ∃ p, (name, p) ∈ ps ∧ p.isOptional = q.isOptional ∧
      Fits p.ty q.ty ∧ Fits q.ty p.ty) :
    Fits (object ps isOpen) (object qs isOpen) ∧ Fits (object qs isOpen) (object ps isOpen) := by
  constructor
  · refine fits_object_of_same_keys hkeys fun name p q hp hq hdemanded => ?_
    obtain ⟨p', hp', hoptional, hforth, _⟩ := h name q hq
    obtain rfl := Entries.eq_of_mem hps (Entries.mem_of_lookup hp) hp'
    exact ⟨hoptional.trans hdemanded, hforth⟩
  · refine fits_object_of_same_keys (fun name => (hkeys name).symm) fun name q p hq hp hdemanded => ?_
    obtain ⟨p', hp', hoptional, _, hback⟩ := h name q (Entries.mem_of_lookup hq)
    obtain rfl := Entries.eq_of_mem hps hp hp'
    exact ⟨hoptional.symm.trans hdemanded, hback⟩

/-- Equal types fit each other. Both directions go together, since the parameters of a function ask for
the other one. -/
theorem Irredundant.fits_both_of_beq {a b : Ty} (ha : a.Irredundant) (hb : b.Irredundant)
    (hab : (a == b) = true) : Fits a b ∧ Fits b a := by
  induction a generalizing b with
  | string | number | integer | boolean | null | any =>
    obtain rfl := eq_of_primitive_beq rfl hab
    exact ⟨.primitive rfl, .primitive rfl⟩
  | var name =>
    obtain rfl := eq_of_var_beq hab
    exact ⟨.var, .var⟩
  | array t ih =>
    obtain ⟨u, rfl, htu⟩ := exists_of_array_beq hab
    obtain ⟨hfit, hfit'⟩ := ih (Irredundant.array_iff.mp ha) (Irredundant.array_iff.mp hb) htu
    exact ⟨.array hfit, .array hfit'⟩
  | object ps isOpen ih =>
    obtain ⟨qs, rfl, _, _⟩ := exists_of_object_beq hab
    have hps := (Irredundant.object_iff.mp ha).2
    have hqs := (Irredundant.object_iff.mp hb).2
    constructor
    · refine fits_object_of_beq ha hb hab fun name p q hp hq hty => ?_
      exact (ih name p hp (hps name p hp) (hqs name q hq) hty).1
    · refine fits_object_of_beq hb ha (ha.beq_symm hb hab) fun name q p hq hp hty => ?_
      have hty' := (hqs name q hq).beq_symm (hps name p hp) hty
      exact (ih name p hp (hps name p hp) (hqs name q hq) hty').2
  | union ms ih =>
    obtain ⟨ns, rfl, _, hpartner⟩ := exists_of_union_beq hab
    obtain ⟨_, hpartner'⟩ := union_beq_iff.mp (ha.beq_symm hb hab)
    obtain ⟨_, hms⟩ := Irredundant.union_iff.mp ha
    obtain ⟨_, hns⟩ := Irredundant.union_iff.mp hb
    constructor
    · refine .unionLeft fun m hm => ?_
      obtain ⟨n, hn, hmn⟩ := hpartner m hm
      exact .unionRight hn (ih m hm (hms m hm) (hns n hn) hmn).1
    · refine .unionLeft fun n hn => ?_
      obtain ⟨m, hm, hnm⟩ := hpartner' n hn
      have hmn := (hns n hn).beq_symm (hms m hm) hnm
      exact .unionRight hm (ih m hm (hms m hm) (hns n hn) hmn).2
  | function params r ihparams ihr =>
    obtain ⟨params₂, s, rfl, hparams, hrs⟩ := exists_of_function_beq hab
    obtain ⟨hps, hr⟩ := Irredundant.function_iff.mp ha
    obtain ⟨hqs, hs⟩ := Irredundant.function_iff.mp hb
    obtain ⟨hfit, hfit'⟩ := ihr hr hs hrs
    have hlength : params.length = params₂.length := hparams.length_eq
    constructor
    · refine .function hlength (fun p q hmem => ?_) hfit
      obtain ⟨hp, hq⟩ := List.of_mem_zip hmem
      exact (ihparams p hp (hps p hp) (hqs q hq) (List.forall₂_zip hparams hmem)).2
    · refine .function hlength.symm (fun q p hmem => ?_) hfit'
      obtain ⟨hq, hp⟩ := List.of_mem_zip hmem
      exact (ihparams p hp (hps p hp) (hqs q hq) (List.forall₂_zip hparams.flip hmem)).1

theorem fits_both_of_beq {a b : Ty} (ha : a.WellFormed) (hb : b.WellFormed)
    (hab : (a == b) = true) : Fits a b ∧ Fits b a :=
  ha.irredundant.fits_both_of_beq hb.irredundant hab

theorem Fits.refl {a : Ty} (ha : a.WellFormed) : Fits a a :=
  (fits_both_of_beq ha ha (beq_refl ha)).1

/-! ### What the decision procedure tests -/

theorem isUnion_eq_false_iff : a.isUnion = false ↔ ∀ ms, a ≠ union ms := by
  cases a <;> simp [isUnion]

theorem isUnion_eq_of_beq (h : (a == b) = true) : a.isUnion = b.isUnion := by
  cases a with
  | union ms =>
    obtain ⟨ns, rfl, _⟩ := exists_of_union_beq h
    rfl
  | _ =>
    cases b with
    | union ns => cases h
    | _ => rfl

theorem subtypeOf_of_beq (h : (a == b) = true) : a.subtypeOf b = true := by
  unfold subtypeOf
  rw [h, Bool.true_or]

theorem subtypeOf_any : a.subtypeOf any = true := by
  simp [subtypeOf]

theorem union_subtypeOf_iff : (union ms).subtypeOf b = true ↔
    (union ms == b) = true ∨ ∀ m ∈ ms, m.subtypeOf b = true := by
  cases b with
  | any => simp [subtypeOf_any]
  | _ => simp [subtypeOf]

theorem subtypeOf_union_iff (ha : a.isUnion = false) : a.subtypeOf (union ns) = true ↔
    ∃ n ∈ ns, a.subtypeOf n = true := by
  have hne : (a == union ns) = false := by
    refine Bool.eq_false_iff.mpr fun heq => ?_
    cases ha.symm.trans (isUnion_eq_of_beq heq)
  cases a with
  | union ms => cases ha
  | _ => simp [subtypeOf, hne]

/-- A union accepts what one of its members accepts, also where the left union is opened first. -/
theorem subtypeOf_union_of_mem {a n : Ty} {ns : List Ty} (hn : n ∈ ns)
    (h : a.subtypeOf n = true) : a.subtypeOf (union ns) = true := by
  induction a generalizing n ns with
  | union ms ih =>
    refine union_subtypeOf_iff.mpr (Or.inr fun m hm => ?_)
    rcases union_subtypeOf_iff.mp h with heq | hall
    · obtain ⟨ks, rfl, _, hpartner⟩ := exists_of_union_beq heq
      obtain ⟨k, hk, hmk⟩ := hpartner m hm
      exact ih m hm hn (ih m hm hk (subtypeOf_of_beq hmk))
    · exact ih m hm hn (hall m hm)
  | _ => exact (subtypeOf_union_iff rfl).mpr ⟨n, hn, h⟩

theorem array_subtypeOf_array_iff : (array s).subtypeOf (array t) = true ↔
    s.subtypeOf t = true := by
  rw [subtypeOf, Bool.or_eq_true]
  exact ⟨fun h => h.elim (fun heq => subtypeOf_of_beq heq) id, Or.inr⟩

theorem object_subtypeOf_object_iff : (object ps open₁).subtypeOf (object qs open₂) = true ↔
    (object ps open₁ == object qs open₂) = true ∨
      (open₂ = false → open₁ = false ∧ ∀ name ∈ Entries.keys ps, name ∈ Entries.keys qs) ∧
      ∀ name q, (name, q) ∈ qs → q.isOptional = false →
        ∃ p, ps.lookup name = some p ∧ p.isOptional = false ∧ p.ty.subtypeOf q.ty = true := by
  rw [subtypeOf, Bool.or_eq_true]
  apply or_congr_right
  rw [Bool.and_eq_true]
  apply and_congr
  · cases open₂ with
    | true => simp
    | false => simp [Entries.hasKey_iff, Entries.keys]
  · rw [List.all_eq_true]
    simp only [List.mem_attach, forall_const, Subtype.forall, Prod.forall]
    refine forall_congr' fun name => forall_congr' fun q => forall_congr' fun _ => ?_
    cases q.isOptional with
    | true => simp
    | false =>
      simp only [Bool.false_or, true_imp_iff]
      split
      · rename_i p hp
        simp [hp]
      · rename_i hnone
        simp [hnone]

theorem function_subtypeOf_function_iff :
    (function params₁ r).subtypeOf (function params₂ s) = true ↔
      (function params₁ r == function params₂ s) = true ∨
        params₁.length = params₂.length ∧
        (∀ p q, (p, q) ∈ params₁.zip params₂ → q.subtypeOf p = true) ∧ r.subtypeOf s = true := by
  rw [subtypeOf, Bool.or_eq_true]
  simp [and_assoc]

/-! ### The decision procedure decides the rules -/

theorem Irredundant.fits_of_subtypeOf {a b : Ty} (ha : a.Irredundant) (hb : b.Irredundant)
    (h : a.subtypeOf b = true) : Fits a b := by
  induction hsize : sizeOf a + sizeOf b using Nat.strongRecOn generalizing a b with
  | _ size ih =>
  subst hsize
  by_cases heq : (a == b) = true
  · exact (ha.fits_both_of_beq hb heq).1
  have hrule := h
  unfold subtypeOf at hrule
  rw [Bool.eq_false_iff.mpr heq, Bool.false_or] at hrule
  split at hrule
  · exact .any
  · obtain ⟨_, hmembers⟩ := Irredundant.union_iff.mp ha
    have hall := (union_subtypeOf_iff.mp h).resolve_left heq
    refine .unionLeft fun m hm => ih _ ?_ (hmembers m hm) hb (hall m hm) rfl
    have hlt := sizeOf_lt_union hm
    omega
  · rename_i hunion
    obtain ⟨_, hmembers⟩ := Irredundant.union_iff.mp hb
    obtain ⟨n, hn, hsub⟩ := (subtypeOf_union_iff (isUnion_eq_false_iff.mpr hunion)).mp h
    refine .unionRight hn (ih _ ?_ ha (hmembers n hn) hsub rfl)
    have hlt := sizeOf_lt_union hn
    omega
  · exact .integer
  · refine .array (ih _ ?_ (Irredundant.array_iff.mp ha) (Irredundant.array_iff.mp hb)
      (array_subtypeOf_array_iff.mp h) rfl)
    simp only [array.sizeOf_spec]
    omega
  · obtain ⟨hopen, hdemanded⟩ := (object_subtypeOf_object_iff.mp h).resolve_left heq
    refine .object hopen (fun name q hq hqdemanded => ?_) (fun name p q hp hq hqdemanded => ?_)
    · obtain ⟨p, hp, hpdemanded, _⟩ := hdemanded name q hq hqdemanded
      exact ⟨p, hp, hpdemanded⟩
    · obtain ⟨p', hp', _, hsub⟩ := hdemanded name q hq hqdemanded
      obtain rfl : p = p' := Option.some.inj (hp.symm.trans hp')
      have hpmem := Entries.mem_of_lookup hp
      exact ih _ (Nat.add_lt_add (sizeOf_lt_object hpmem) (sizeOf_lt_object hq))
        ((Irredundant.object_iff.mp ha).2 name p hpmem)
        ((Irredundant.object_iff.mp hb).2 name q hq) hsub rfl
  · obtain ⟨hlength, hparams, hresult⟩ := (function_subtypeOf_function_iff.mp h).resolve_left heq
    obtain ⟨hps, hr⟩ := Irredundant.function_iff.mp ha
    obtain ⟨hqs, hs⟩ := Irredundant.function_iff.mp hb
    refine .function hlength (fun p q hmem => ?_) ?_
    · obtain ⟨hp, hq⟩ := List.of_mem_zip hmem
      refine ih _ ?_ (hqs q hq) (hps p hp) (hparams p q hmem) rfl
      rw [Nat.add_comm]
      exact Nat.add_lt_add (sizeOf_param_lt_function hp) (sizeOf_param_lt_function hq)
    · exact ih _ (Nat.add_lt_add sizeOf_result_lt_function sizeOf_result_lt_function) hr hs
        hresult rfl
  · cases hrule

theorem Irredundant.subtypeOf_of_fits {a b : Ty} (ha : a.Irredundant) (hb : b.Irredundant)
    (h : Fits a b) : a.subtypeOf b = true := by
  induction h with
  | any => exact subtypeOf_any
  | primitive _ | var => exact subtypeOf_of_beq ha.beq_refl
  | integer => simp [subtypeOf]
  | array _ ih =>
    exact array_subtypeOf_array_iff.mpr
      (ih (Irredundant.array_iff.mp ha) (Irredundant.array_iff.mp hb))
  | object hopen hfound _ ih =>
    refine object_subtypeOf_object_iff.mpr (Or.inr ⟨hopen, fun name q hq hqdemanded => ?_⟩)
    obtain ⟨p, hp, hpdemanded⟩ := hfound name q hq hqdemanded
    have hp' := (Irredundant.object_iff.mp ha).2 name p (Entries.mem_of_lookup hp)
    have hq' := (Irredundant.object_iff.mp hb).2 name q hq
    exact ⟨p, hp, hpdemanded, ih name p q hp hq hqdemanded hp' hq'⟩
  | function hlength _ _ ihparams ihr =>
    obtain ⟨hps, hr⟩ := Irredundant.function_iff.mp ha
    obtain ⟨hqs, hs⟩ := Irredundant.function_iff.mp hb
    refine function_subtypeOf_function_iff.mpr (Or.inr ⟨hlength, fun p q hmem => ?_, ihr hr hs⟩)
    obtain ⟨hp, hq⟩ := List.of_mem_zip hmem
    exact ihparams p q hmem (hqs q hq) (hps p hp)
  | unionLeft _ ih =>
    obtain ⟨_, hmembers⟩ := Irredundant.union_iff.mp ha
    exact union_subtypeOf_iff.mpr (Or.inr fun m hm => ih m hm (hmembers m hm) hb)
  | unionRight hn _ ih =>
    exact subtypeOf_union_of_mem hn (ih ha ((Irredundant.union_iff.mp hb).2 _ hn))

theorem Irredundant.subtypeOf_iff_fits (ha : a.Irredundant) (hb : b.Irredundant) :
    a.subtypeOf b = true ↔ Fits a b :=
  ⟨ha.fits_of_subtypeOf hb, ha.subtypeOf_of_fits hb⟩

theorem fits_of_subtypeOf (ha : a.WellFormed) (hb : b.WellFormed) (h : a.subtypeOf b = true) :
    Fits a b :=
  ha.irredundant.fits_of_subtypeOf hb.irredundant h

theorem subtypeOf_of_fits (ha : a.WellFormed) (hb : b.WellFormed) (h : Fits a b) :
    a.subtypeOf b = true :=
  ha.irredundant.subtypeOf_of_fits hb.irredundant h

theorem subtypeOf_iff_fits (ha : a.WellFormed) (hb : b.WellFormed) :
    a.subtypeOf b = true ↔ Fits a b :=
  ha.irredundant.subtypeOf_iff_fits hb.irredundant

/-- **Subtyping is a preorder.** On well-formed types `subtypeOf` is reflexive and transitive. -/
theorem subtypeOf_preorder (ha : a.WellFormed) (hb : b.WellFormed) (hc : c.WellFormed) :
    a.subtypeOf a = true ∧
      (a.subtypeOf b = true → b.subtypeOf c = true → a.subtypeOf c = true) := by
  constructor
  · exact (subtypeOf_iff_fits ha ha).mpr (.refl ha)
  · rw [subtypeOf_iff_fits ha hb, subtypeOf_iff_fits hb hc, subtypeOf_iff_fits ha hc]
    exact Fits.trans

theorem subtypeOf_preorder_of_functions :
    (function [union [number, null]] (object [("id", .mandatory integer)] false)).subtypeOf
        (union [var "T", function [integer] (union [any, null])]) = true := by
  have hab : (function [union [number, null]] (object [("id", .mandatory integer)] false)).subtypeOf
      (function [integer] (object [("id", .mandatory number)] true)) = true := by
    refine subtypeOf_of_fits (by decide) (by decide) (.function rfl ?_ (.object ?_ ?_ ?_))
    · intro p q hmem
      cases List.mem_singleton.mp hmem
      exact .unionRight List.mem_cons_self .integer
    · intro hopen
      cases hopen
    · intro name q hq _
      cases List.mem_singleton.mp hq
      exact ⟨.mandatory integer, rfl, rfl⟩
    · intro name p q hp hq _
      cases List.mem_singleton.mp hq
      cases hp
      exact .integer
  have hbc : (function [integer] (object [("id", .mandatory number)] true)).subtypeOf
      (union [var "T", function [integer] (union [any, null])]) = true := by
    refine subtypeOf_of_fits (by decide) (by decide) ?_
    refine .unionRight (List.mem_cons_of_mem _ List.mem_cons_self) (.function rfl ?_ ?_)
    · intro p q hmem
      cases List.mem_singleton.mp hmem
      exact .primitive rfl
    · exact .unionRight List.mem_cons_self .any
  exact (subtypeOf_preorder (by decide) (by decide) (by decide)).2 hab hbc

end SchemaInfer.Ty
