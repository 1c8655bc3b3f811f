import SchemaInfer.Proofs.Entries
import SchemaInfer.Proofs.WellFormed
import Mathlib.Data.List.Forall2

/-!
# Equality of types is an equivalence

`Ty.beq` compares objects by name and unions as sets, and in both it looks from the left to the right
only: every property or member on the left has its equal on the right. On irredundant types that is
enough. The members of a union are pairwise unequal, so they find different partners, and since both
sides are equally long no partner is left over. With this counting argument, stated once below for any
relation, equality is reflexive, symmetric and transitive.
-/

namespace SchemaInfer

/-! ### Lists in step -/

theorem exists_forall₂_of_forall {α β : Type} {R : α → β → Prop} {xs : List α}
    (h : ∀ x ∈ xs, ∃ y, R x y) : ∃ ys, List.Forall₂ R xs ys := by
  induction xs with
  | nil => exact ⟨[], .nil⟩
  | cons x xs ih =>
    obtain ⟨hx, hxs⟩ := List.forall_mem_cons.mp h
    obtain ⟨y, hy⟩ := hx
    obtain ⟨ys, hys⟩ := ih hxs
    exact ⟨y :: ys, .cons hy hys⟩

theorem exists_related_of_mem {α β : Type} {R : α → β → Prop} {xs : List α} {ys : List β} {x : α}
    (h : List.Forall₂ R xs ys) (hx : x ∈ xs) : ∃ y ∈ ys, R x y := by
  induction h with
  | nil => cases hx
  | cons hfirst _ ih =>
    rcases List.mem_cons.mp hx with rfl | hx
    · exact ⟨_, List.mem_cons_self, hfirst⟩
    · obtain ⟨y, hy, hxy⟩ := ih hx
      exact ⟨y, List.mem_cons_of_mem _ hy, hxy⟩

theorem forall₂_comp {α β γ : Type} {R : α → β → Prop} {S : β → γ → Prop} {T : α → γ → Prop}
    {xs : List α} {ys : List β} {zs : List γ} (hxy : List.Forall₂ R xs ys) (hyz : List.Forall₂ S ys zs)
    (h : ∀ x y z, x ∈ xs → y ∈ ys → R x y → S y z → T x z) : List.Forall₂ T xs zs := by
  induction hxy generalizing zs with
  | nil =>
    cases hyz
    exact .nil
  | cons hfirst _ ih =>
    obtain _ | ⟨hfirst', hrest⟩ := hyz
    refine .cons (h _ _ _ List.mem_cons_self List.mem_cons_self hfirst hfirst') (ih hrest ?_)
    intro x y z hx hy
    exact h x y z (List.mem_cons_of_mem _ hx) (List.mem_cons_of_mem _ hy)

/-- If every element on the left has a partner on the right, no two of them share one, and the right is
no longer than the left, then the right can be brought into step with the left. -/
theorem exists_perm_forall₂ {α β : Type} {R : α → β → Prop} {xs : List α} :
    ∀ {ys : List β}, (xs.Pairwise fun x x' => ∀ y ∈ ys, R x y → ¬ R x' y) →
      (∀ x ∈ xs, ∃ y ∈ ys, R x y) → ys.length ≤ xs.length →
      ∃ ys', ys'.Perm ys ∧ List.Forall₂ R xs ys' := by
  induction xs with
  | nil =>
    intro ys _ _ hlength
    obtain rfl : ys = [] := List.length_eq_zero_iff.mp (Nat.le_zero.mp hlength)
    exact ⟨[], .refl _, .nil⟩
  | cons x xs ih =>
    intro ys hdistinct hpartner hlength
    obtain ⟨hfirst, hrest⟩ := List.pairwise_cons.mp hdistinct
    obtain ⟨y₀, hy₀, hxy₀⟩ := hpartner x List.mem_cons_self
    obtain ⟨before, after, rfl⟩ := List.append_of_mem hy₀
    -- the partner of `x` is taken out; the others keep theirs, which are different ones
    have hsub : ∀ z ∈ before ++ after, z ∈ before ++ y₀ :: after := by
      intro z hz
      simp only [List.mem_append, List.mem_cons] at hz ⊢
      tauto
    have hpartner' : ∀ x' ∈ xs, ∃ z ∈ before ++ after, R x' z := by
      intro x' hx'
      obtain ⟨z, hz, hxz⟩ := hpartner x' (List.mem_cons_of_mem _ hx')
      refine ⟨z, ?_, hxz⟩
      simp only [List.mem_append, List.mem_cons] at hz ⊢
      rcases hz with hz | rfl | hz
      · exact Or.inl hz
      · exact absurd hxz (hfirst x' hx' z hy₀ hxy₀)
      · exact Or.inr hz
    have hdistinct' := hrest.imp fun hshare z hz => hshare z (hsub z hz)
    have hlength' : (before ++ after).length ≤ xs.length := by
      simp only [List.length_append, List.length_cons] at hlength ⊢
      omega
    obtain ⟨ys', hperm, hys'⟩ := ih hdistinct' hpartner' hlength'
    exact ⟨y₀ :: ys', (hperm.cons y₀).trans List.perm_middle.symm, .cons hxy₀ hys'⟩

/-- Without the last condition the left is no longer than the right. -/
theorem length_le_of_partners {α β : Type} {R : α → β → Prop} {xs : List α} {ys : List β}
    (hdistinct : xs.Pairwise fun x x' => ∀ y ∈ ys, R x y → ¬ R x' y)
    (hpartner : ∀ x ∈ xs, ∃ y ∈ ys, R x y) : xs.length ≤ ys.length := by
  rcases Nat.le_total xs.length ys.length with hle | hle
  · exact hle
  · obtain ⟨ys', hperm, hys'⟩ := exists_perm_forall₂ hdistinct hpartner hle
    exact Nat.le_of_eq (hys'.length_eq.trans hperm.length_eq)

/-- With it, every element on the right is somebody's partner. -/
theorem exists_partner_of_length_le {α β : Type} {R : α → β → Prop} {xs : List α} {ys : List β}
    (hdistinct : xs.Pairwise fun x x' => ∀ y ∈ ys, R x y → ¬ R x' y)
    (hpartner : ∀ x ∈ xs, ∃ y ∈ ys, R x y) (hlength : ys.length ≤ xs.length) :
    ∀ y ∈ ys, ∃ x ∈ xs, R x y := by
  obtain ⟨ys', hperm, hys'⟩ := exists_perm_forall₂ hdistinct hpartner hlength
  intro y hy
  exact exists_related_of_mem hys'.flip (hperm.symm.subset hy)

namespace Ty

/-! ### What equality says, constructor by constructor -/

/-- Properties with equal types and the same data. -/
structure SameProperty (p q : Property Ty) : Prop where
  ty : (p.ty == q.ty) = true
  required : p.required = q.required
  minOccurs : p.minOccurs = q.minOccurs
  maxOccurs : p.maxOccurs = q.maxOccurs
  description : p.description = q.description

theorem sameProperty_iff {p q : Property Ty} : SameProperty p q ↔
    (p.ty.beq q.ty && p.required == q.required && p.minOccurs == q.minOccurs
      && p.maxOccurs == q.maxOccurs && p.description == q.description) = true := by
  simp only [Bool.and_eq_true, beq_iff_eq]
  constructor
  · rintro ⟨hty, hrequired, hmin, hmax, hdescription⟩
    exact ⟨⟨⟨⟨hty, hrequired⟩, hmin⟩, hmax⟩, hdescription⟩
  · rintro ⟨⟨⟨⟨hty, hrequired⟩, hmin⟩, hmax⟩, hdescription⟩
    exact ⟨hty, hrequired, hmin, hmax, hdescription⟩

theorem beqProperties_iff {ps qs : Properties} : beqProperties ps qs = true ↔
    ∀ name p, (name, p) ∈ ps → ∃ q, qs.lookup name = some q ∧ SameProperty p q := by
  induction ps with
  | nil => simp [beqProperties]
  | cons first ps ih =>
    obtain ⟨name, p⟩ := first
    rw [beqProperties, Bool.and_eq_true, ih, Entries.forall_mem_cons_iff]
    apply and_congr_left'
    cases qs.lookup name with
    | none => simp
    | some q => simp only [Option.some.injEq, exists_eq_left', sameProperty_iff]

theorem beqMembers_iff {ms ns : List Ty} : beqMembers ms ns = true ↔
    ∀ m ∈ ms, ∃ n ∈ ns, (m == n) = true := by
  induction ms with
  | nil => simp [beqMembers]
  | cons m ms ih =>
    rw [beqMembers, Bool.and_eq_true, ih, List.any_eq_true, List.forall_mem_cons]
    rfl

theorem beqParams_iff {ps qs : List Ty} : beqParams ps qs = true ↔
    List.Forall₂ (fun p q => (p == q) = true) ps qs := by
  induction ps generalizing qs with
  | nil =>
    cases qs with
    | nil => simp [beqParams]
    | cons q qs => simp [beqParams]
  | cons p ps ih =>
    cases qs with
    | nil => simp [beqParams]
    | cons q qs =>
      rw [beqParams, Bool.and_eq_true, ih, List.forall₂_cons]
      rfl

variable {ps qs : Properties} {open₁ open₂ : Bool} {ms ns params₁ params₂ : List Ty} {r s : Ty}

theorem object_beq_iff : (object ps open₁ == object qs open₂) = true ↔
    ps.length = qs.length ∧
      (∀ name p, (name, p) ∈ ps → ∃ q, qs.lookup name = some q ∧ SameProperty p q) ∧
      open₁ = open₂ := by
  change (ps.length == qs.length && beqProperties ps qs && open₁ == open₂) = true ↔ _
  rw [Bool.and_eq_true, Bool.and_eq_true, beqProperties_iff, beq_iff_eq, beq_iff_eq, and_assoc]

theorem union_beq_iff : (union ms == union ns) = true ↔
    ms.length = ns.length ∧ ∀ m ∈ ms, ∃ n ∈ ns, (m == n) = true := by
  change (ms.length == ns.length && beqMembers ms ns) = true ↔ _
  rw [Bool.and_eq_true, beqMembers_iff, beq_iff_eq]

theorem function_beq_iff : (function params₁ r == function params₂ s) = true ↔
    List.Forall₂ (fun p q => (p == q) = true) params₁ params₂ ∧ (r == s) = true := by
  change (beqParams params₁ params₂ && r.beq s) = true ↔ _
  rw [Bool.and_eq_true, beqParams_iff]
  rfl

/-! What is equal to a type of some form has that form. -/

theorem eq_of_primitive_beq {a b : Ty} (ha : a.isPrimitive = true) (h : (a == b) = true) :
    b = a := by
  cases a with
  | string | number | integer | boolean | null | any =>
    cases b <;> cases h
    rfl
  | _ => simp [isPrimitive] at ha

theorem eq_of_var_beq {name : String} {b : Ty} (h : (var name == b) = true) : b = var name := by
  cases b with
  | var other =>
    have hnames : (name == other) = true := h
    rw [beq_iff_eq.mp hnames]
  | _ => cases h

theorem exists_of_array_beq {t b : Ty} (h : (array t == b) = true) :
    ∃ u, b = array u ∧ (t == u) = true := by
  cases b with
  | array u => exact ⟨u, rfl, h⟩
  | _ => cases h

theorem exists_of_object_beq {b : Ty} (h : (object ps open₁ == b) = true) :
    ∃ qs, b = object qs open₁ ∧ ps.length = qs.length ∧
      ∀ name p, (name, p) ∈ ps → ∃ q, qs.lookup name = some q ∧ SameProperty p q := by
  cases b with
  | object qs open₂ =>
    obtain ⟨hlength, hproperties, rfl⟩ := object_beq_iff.mp h
    exact ⟨qs, rfl, hlength, hproperties⟩
  | _ => cases h

theorem exists_of_union_beq {b : Ty} (h : (union ms == b) = true) :
    ∃ ns, b = union ns ∧ ms.length = ns.length ∧ ∀ m ∈ ms, ∃ n ∈ ns, (m == n) = true := by
  cases b with
  | union ns => exact ⟨ns, rfl, union_beq_iff.mp h⟩
  | _ => cases h

theorem exists_of_function_beq {b : Ty} (h : (function params₁ r == b) = true) :
    ∃ params₂ s, b = function params₂ s ∧
      List.Forall₂ (fun p q => (p == q) = true) params₁ params₂ ∧ (r == s) = true := by
  cases b with
  | function params₂ s => exact ⟨params₂, s, rfl, function_beq_iff.mp h⟩
  | _ => cases h

/-! ### Reflexivity, symmetry, transitivity -/

theorem Irredundant.beq_refl {a : Ty} (ha : a.Irredundant) : (a == a) = true := by
  induction a with
  | string | number | integer | boolean | null | any => rfl
  | var name => exact beq_self_eq_true name
  | array t ih => exact ih (Irredundant.array_iff.mp ha)
  | object ps isOpen ih =>
    obtain ⟨hkeys, hproperties⟩ := Irredundant.object_iff.mp ha
    refine object_beq_iff.mpr ⟨rfl, fun name p hmem => ⟨p, ?_, ?_⟩, rfl⟩
    · exact (Entries.lookup_eq_some_iff_mem hkeys).mpr hmem
    · exact ⟨ih name p hmem (hproperties name p hmem), rfl, rfl, rfl, rfl⟩
  | union ms ih =>
    obtain ⟨_, hmembers⟩ := Irredundant.union_iff.mp ha
    exact union_beq_iff.mpr ⟨rfl, fun m hmem => ⟨m, hmem, ih m hmem (hmembers m hmem)⟩⟩
  | function params r ihparams ihr =>
    obtain ⟨hparams, hr⟩ := Irredundant.function_iff.mp ha
    refine function_beq_iff.mpr ⟨?_, ihr hr⟩
    exact List.forall₂_same.mpr fun p hmem => ihparams p hmem (hparams p hmem)

/-- Transitivity takes no irredundance: partners are followed from the left to the right. -/
theorem beq_trans {a b c : Ty} (hab : (a == b) = true) (hbc : (b == c) = true) :
    (a == c) = true := by
  induction a generalizing b c with
  | string | number | integer | boolean | null | any =>
    obtain rfl := eq_of_primitive_beq rfl hab
    exact hbc
  | var name =>
    obtain rfl := eq_of_var_beq hab
    exact hbc
  | array t ih =>
    obtain ⟨u, rfl, htu⟩ := exists_of_array_beq hab
    obtain ⟨v, rfl, huv⟩ := exists_of_array_beq hbc
    exact ih htu huv
  | object ps isOpen ih =>
    obtain ⟨qs, rfl, hlength₁, hpq⟩ := exists_of_object_beq hab
    obtain ⟨rs, rfl, hlength₂, hqr⟩ := exists_of_object_beq hbc
    refine object_beq_iff.mpr ⟨hlength₁.trans hlength₂, fun name p hp => ?_, rfl⟩
    obtain ⟨q, hq, hsame₁⟩ := hpq name p hp
    obtain ⟨r, hr, hsame₂⟩ := hqr name q (Entries.mem_of_lookup hq)
    exact ⟨r, hr, ih name p hp hsame₁.ty hsame₂.ty, hsame₁.required.trans hsame₂.required,
      hsame₁.minOccurs.trans hsame₂.minOccurs, hsame₁.maxOccurs.trans hsame₂.maxOccurs,
      hsame₁.description.trans hsame₂.description⟩
  | union ms ih =>
    obtain ⟨ns, rfl, hlength₁, hmn⟩ := exists_of_union_beq hab
    obtain ⟨ks, rfl, hlength₂, hnk⟩ := exists_of_union_beq hbc
    refine union_beq_iff.mpr ⟨hlength₁.trans hlength₂, fun m hm => ?_⟩
    obtain ⟨n, hn, hmn⟩ := hmn m hm
    obtain ⟨k, hk, hnk⟩ := hnk n hn
    exact ⟨k, hk, ih m hm hmn hnk⟩
  | function params r ihparams ihr =>
    obtain ⟨params₂, r₂, rfl, hparams₁, hr₁⟩ := exists_of_function_beq hab
    obtain ⟨params₃, r₃, rfl, hparams₂, hr₂⟩ := exists_of_function_beq hbc
    refine function_beq_iff.mpr ⟨?_, ihr hr₁ hr₂⟩
    clear hab hbc
    induction hparams₁ generalizing params₃ with
    | nil => exact hparams₂
    | cons hpq _ ihrest =>
      obtain _ | ⟨hqr, hrest⟩ := hparams₂
      exact .cons (ihparams _ List.mem_cons_self hpq hqr)
        (ihrest (fun p hp => ihparams p (List.mem_cons_of_mem _ hp)) _ hrest)

/-- Symmetry. In a union the partners of two members are different, since otherwise the members would
be equal to each other; so the partners are all there is on the right. -/
theorem Irredundant.beq_symm {a b : Ty} (ha : a.Irredundant) (hb : b.Irredundant)
    (hab : (a == b) = true) : (b == a) = true := by
  induction a generalizing b with
  | string | number | integer | boolean | null | any =>
    obtain rfl := eq_of_primitive_beq rfl hab
    exact hab
  | var name =>
    obtain rfl := eq_of_var_beq hab
    exact hab
  | array t ih =>
    obtain ⟨u, rfl, htu⟩ := exists_of_array_beq hab
    exact ih (Irredundant.array_iff.mp ha) (Irredundant.array_iff.mp hb) htu
  | object ps isOpen ih =>
    obtain ⟨qs, rfl, hlength, hpq⟩ := exists_of_object_beq hab
    obtain ⟨hkeys₁, hps⟩ := Irredundant.object_iff.mp ha
    obtain ⟨hkeys₂, hqs⟩ := Irredundant.object_iff.mp hb
    refine object_beq_iff.mpr ⟨hlength.symm, fun name q hq => ?_, rfl⟩
    have hdistinct : ps.Pairwise fun x x' => ∀ y ∈ qs, x.1 = y.1 → ¬ x'.1 = y.1 :=
      (List.pairwise_map.mp hkeys₁).imp fun hne _ _ hx hx' => hne (hx.trans hx'.symm)
    have hpartner : ∀ x ∈ ps, ∃ y ∈ qs, x.1 = y.1 := by
      rintro ⟨name, p⟩ hp
      obtain ⟨q, hq, _⟩ := hpq name p hp
      exact ⟨(name, q), Entries.mem_of_lookup hq, rfl⟩
    obtain ⟨⟨name', p⟩, hp, rfl⟩ :=
      exists_partner_of_length_le hdistinct hpartner (Nat.le_of_eq hlength.symm) (name, q) hq
    obtain ⟨q', hq', hsame⟩ := hpq name' p hp
    obtain rfl : q = q' := Option.some.inj
      (((Entries.lookup_eq_some_iff_mem hkeys₂).mpr hq).symm.trans hq')
    exact ⟨p, (Entries.lookup_eq_some_iff_mem hkeys₁).mpr hp,
      ih _ p hp (hps _ p hp) (hqs _ q hq) hsame.ty, hsame.required.symm, hsame.minOccurs.symm,
      hsame.maxOccurs.symm, hsame.description.symm⟩
  | union ms ih =>
    obtain ⟨ns, rfl, hlength, hmn⟩ := exists_of_union_beq hab
    obtain ⟨hunequal, hms⟩ := Irredundant.union_iff.mp ha
    obtain ⟨_, hns⟩ := Irredundant.union_iff.mp hb
    have hsymm : ∀ m ∈ ms, ∀ n ∈ ns, (m == n) = true → (n == m) = true :=
      fun m hm n hn => ih m hm (hms m hm) (hns n hn)
    have hdistinct : ms.Pairwise fun m m' => ∀ n ∈ ns, (m == n) = true → ¬ (m' == n) = true := by
      refine hunequal.imp_of_mem fun {m m'} _ hm' hne n hn hm_n hm'_n => ?_
      have hequal : (m == m') = true := beq_trans hm_n (hsymm m' hm' n hn hm'_n)
      rw [hne] at hequal
      cases hequal
    refine union_beq_iff.mpr ⟨hlength.symm, fun n hn => ?_⟩
    obtain ⟨m, hm, hm_n⟩ := exists_partner_of_length_le hdistinct hmn (Nat.le_of_eq hlength.symm) n hn
    exact ⟨m, hm, hsymm m hm n hn hm_n⟩
  | function params r ihparams ihr =>
    obtain ⟨params₂, r₂, rfl, hparams, hr⟩ := exists_of_function_beq hab
    obtain ⟨hps, hr₁⟩ := Irredundant.function_iff.mp ha
    obtain ⟨hqs, hr₂⟩ := Irredundant.function_iff.mp hb
    refine function_beq_iff.mpr ⟨?_, ihr hr₁ hr₂ hr⟩
    clear ha hb hab
    induction hparams with
    | nil => exact .nil
    | cons hpq _ ihrest =>
      refine .cons (ihparams _ List.mem_cons_self (hps _ List.mem_cons_self)
        (hqs _ List.mem_cons_self) hpq) (ihrest ?_ ?_ ?_)
      · exact fun p hp => ihparams p (List.mem_cons_of_mem _ hp)
      · exact fun p hp => hps p (List.mem_cons_of_mem _ hp)
      · exact fun p hp => hqs p (List.mem_cons_of_mem _ hp)

theorem beq_refl {a : Ty} (ha : a.WellFormed) : (a == a) = true :=
  ha.irredundant.beq_refl

theorem beq_symm {a b : Ty} (ha : a.WellFormed) (hb : b.WellFormed) (hab : (a == b) = true) :
    (b == a) = true :=
  ha.irredundant.beq_symm hb.irredundant hab

theorem beq_eq_false_symm {a b : Ty} (ha : a.WellFormed) (hb : b.WellFormed)
    (hne : (a == b) = false) : (b == a) = false := by
  apply Bool.eq_false_iff.mpr
  intro heq
  rw [beq_symm hb ha heq] at hne
  cases hne

end Ty

end SchemaInfer
