import SchemaInfer.Proofs.Substitution
import Mathlib.Logic.Relation

/-!
# What matching does to an assignment

A match is a sequence of observations of single variables. An observation binds a variable that has no
type yet, or widens the type that it has to one that covers both the old type and the type found
(`Ty.fits_of_refine?`). So types only grow along a sequence of observations
(`Observations.exists_wider`), and a match touches no other variables than those of its parameter. What a
match takes without an observation it has compared with the parameter instead.
-/

namespace SchemaInfer

/-- Inference builds well-formed types. -/
theorem wellFormed_invariant : InferenceInvariant Ty.WellFormed Ty.WellFormed where
  primitive := .of_isPrimitive
  array_iff := Ty.WellFormed.array_iff
  function_iff := Ty.WellFormed.function_iff
  property hobject hmem := (Ty.WellFormed.object_iff.mp hobject).2 _ _ hmem
  closedObject hps := Ty.WellFormed.object_iff.mpr ⟨Entries.nodup_keys_ofList,
    fun name p hmem => hps name p (Entries.mem_of_mem_ofList hmem)⟩
  member hunion hmem := (Ty.WellFormed.union_iff.mp hunion).2.2.2 _ hmem
  oneOf := Ty.wellFormed_oneOf
  declaredParams h := (Ty.WellFormed.function_iff.mp h).1
  declaredResult h := (Ty.WellFormed.function_iff.mp h).2
  ground := Ty.wellFormed_ground

namespace Ty

variable {a t u bound found refined param actual : Ty} {name : String} {σ σ' : Assignment}

/-! ### Null set aside -/

theorem fits_orNull (ht : t.WellFormed) : Fits t t.orNull ∧ Fits null t.orNull := by
  unfold orNull
  split
  · exact ⟨.primitive rfl, .primitive rfl⟩
  · exact ⟨.any, .any⟩
  · have hpair : ∀ s ∈ [t, null], s.WellFormed := forall_mem_pair.mpr ⟨ht, .of_isPrimitive rfl⟩
    exact ⟨fits_oneOf hpair (by simp), fits_oneOf hpair (by simp)⟩

theorem withoutNull_fits (ht : t.WellFormed) : Fits t.withoutNull t := by
  cases t with
  | union ms =>
    obtain ⟨hlength, _, _, hms⟩ := WellFormed.union_iff.mp ht
    rw [withoutNull]
    by_cases hkept : (ms.filter fun m => !m.isNull) = []
    · -- only null is left, and there are members that it can have come from
      obtain ⟨m, hm⟩ := List.exists_mem_of_length_pos (Nat.lt_of_lt_of_le Nat.zero_lt_two hlength)
      have hnull : m = null := eq_null_of_isNull (by simpa using List.filter_eq_nil_iff.mp hkept m hm)
      subst hnull
      rw [hkept]
      exact .unionRight hm (.primitive rfl)
    · refine (oneOf_fits_iff hkept fun m hm => hms m (List.mem_of_mem_filter hm)).mpr fun m hm => ?_
      have hmem := List.mem_of_mem_filter hm
      exact .unionRight hmem (.refl (hms m hmem))
  | _ => exact .refl ht

theorem fits_orNull_of_withoutNull (ht : t.WellFormed) (hu : u.WellFormed)
    (h : Fits t.withoutNull u) : Fits t u.orNull := by
  obtain ⟨hself, hnull⟩ := fits_orNull hu
  cases t with
  | union ms =>
    obtain ⟨_, _, _, hms⟩ := WellFormed.union_iff.mp ht
    refine .unionLeft fun m hm => ?_
    by_cases hm' : m.isNull = true
    · exact eq_null_of_isNull hm' ▸ hnull
    · have hkept : m ∈ ms.filter fun m => !m.isNull := List.mem_filter.mpr ⟨hm, by simpa using hm'⟩
      have hwf : ∀ m ∈ ms.filter fun m => !m.isNull, m.WellFormed :=
        fun m hm => hms m (List.mem_of_mem_filter hm)
      exact ((fits_oneOf hwf hkept).trans h).trans hself
  | _ => exact h.trans hself

/-! ### Widening -/

theorem fits_of_wider? (hbound : bound.WellFormed) (hfound : found.WellFormed)
    (h : wider? bound found = some refined) :
    Fits bound refined ∧ (found.isAny = false → Fits found refined) := by
  unfold wider? at h
  split at h
  · rename_i hcovered
    obtain rfl := Option.some.inj h
    refine ⟨.refl hbound, fun hany => ?_⟩
    rw [hany, Bool.false_or] at hcovered
    exact fits_of_subtypeOf hfound hbound hcovered
  · split at h
    · rename_i hwider
      obtain rfl := Option.some.inj h
      exact ⟨fits_of_subtypeOf hbound hfound hwider, fun _ => .refl hfound⟩
    · cases h

theorem wider?_of_covered (h : found.isAny = true ∨ found.subtypeOf bound = true) :
    wider? bound found = some bound := by
  unfold wider?
  rw [if_pos (Bool.or_eq_true_iff.mpr h)]

theorem wider?_ne_none (h : bound.subtypeOf found = true) : wider? bound found ≠ none := by
  unfold wider?
  rw [if_pos h]
  split <;> exact Option.some_ne_none _

/-- What a variable stands for after an observation covers what it stood for before and, unless nothing
is known about it, the type found. -/
theorem fits_of_refine? (hbound : bound.WellFormed) (hfound : found.WellFormed)
    (h : refine? bound found = some refined) :
    Fits bound refined ∧ (found.isAny = false → Fits found refined) := by
  unfold refine? at h
  split at h
  · rename_i wider hwider
    exact Option.some.inj h ▸ fits_of_wider? hbound hfound hwider
  · rename_i hunrelated
    split at h
    · rename_i hnull
      obtain rfl := Option.some.inj h
      obtain ⟨hself, hnull'⟩ := fits_orNull hbound
      exact ⟨hself, fun _ => eq_null_of_isNull hnull ▸ hnull'⟩
    split at h
    · rename_i hnull
      obtain rfl := Option.some.inj h
      obtain ⟨hself, hnull'⟩ := fits_orNull hfound
      exact ⟨eq_null_of_isNull hnull ▸ hnull', fun _ => hself⟩
    split at h
    · obtain ⟨wider, hwider, rfl⟩ := Option.map_eq_some_iff.mp h
      have hbound' := wellFormed_invariant.withoutNull hbound
      have hfound' := wellFormed_invariant.withoutNull hfound
      have hwf : wider.WellFormed := by
        rcases eq_or_eq_of_wider? hwider with rfl | rfl
        · exact hbound'
        · exact hfound'
      obtain ⟨hold, hnew⟩ := fits_of_wider? hbound' hfound' hwider
      refine ⟨fits_orNull_of_withoutNull hbound hwf hold, fun _ => ?_⟩
      refine fits_orNull_of_withoutNull hfound hwf (hnew ?_)
      -- a union with `any` in it covers everything, so the two types would have been related
      refine Bool.eq_false_iff.mpr fun hany => ?_
      have hcovers : Fits bound found :=
        Fits.any.trans (eq_any_of_isAny hany ▸ withoutNull_fits hfound)
      exact wider?_ne_none (subtypeOf_of_fits hbound hfound hcovers) hunrelated
    · cases h

theorem refine?_of_covered (h : found.isAny = true ∨ found.subtypeOf bound = true) :
    refine? bound found = some bound := by
  rw [refine?, wider?_of_covered h]

end Ty

/-! ### Observations -/

section Observations

open Ty (WellFormed Fits)

variable {Allowed Allowed' : String → Prop} {σ σ' : Assignment} {name : String} {t : Ty}

/-- One observation of one of the allowed variables. -/
inductive Observation (Allowed : String → Prop) : Assignment → Assignment → Prop
  | bind {σ : Assignment} {name : String} {found : Ty} : Allowed name → found.WellFormed →
    σ.lookup name = none → Observation Allowed σ (Entries.insert name found σ)
  | widen {σ : Assignment} {name : String} {bound found refined : Ty} : Allowed name →
    found.WellFormed → σ.lookup name = some bound → Ty.refine? bound found = some refined →
    Observation Allowed σ (Entries.insert name refined σ)

/-- Any number of observations of the allowed variables. -/
def Observations (Allowed : String → Prop) : Assignment → Assignment → Prop :=
  Relation.ReflTransGen (Observation Allowed)

namespace Observation

theorem mono (hsub : ∀ name, Allowed name → Allowed' name) (h : Observation Allowed σ σ') :
    Observation Allowed' σ σ' := by
  cases h with
  | bind hname hfound hnone => exact .bind (hsub _ hname) hfound hnone
  | widen hname hfound hbound hrefined => exact .widen (hsub _ hname) hfound hbound hrefined

theorem lookup_eq (h : Observation Allowed σ σ') (hname : ¬ Allowed name) :
    σ'.lookup name = σ.lookup name := by
  cases h with
  | bind hallowed _ _ | widen hallowed _ _ _ =>
    apply Entries.lookup_insert_of_ne
    rintro rfl
    exact hname hallowed

theorem wellFormed (h : Observation Allowed σ σ') (hσ : Entries.All WellFormed σ) :
    Entries.All WellFormed σ' := by
  cases h with
  | bind _ hfound _ => exact hσ.insert hfound
  | widen _ hfound hbound hrefined =>
    exact hσ.insert (wellFormed_invariant.refine? (hσ.lookup hbound) hfound hrefined)

theorem exists_wider (h : Observation Allowed σ σ') (hσ : Entries.All WellFormed σ)
    (ht : σ.lookup name = some t) : ∃ u, σ'.lookup name = some u ∧ Fits t u := by
  cases h with
  | bind _ _ hnone =>
    refine ⟨t, ?_, .refl (hσ.lookup ht)⟩
    rw [Entries.lookup_insert_of_ne, ht]
    rintro rfl
    rw [hnone] at ht
    cases ht
  | @widen observed bound found refined _ hfound hbound hrefined =>
    by_cases heq : name = observed
    · subst heq
      rw [hbound] at ht
      obtain rfl := Option.some.inj ht
      exact ⟨refined, Entries.lookup_insert_self,
        (Ty.fits_of_refine? (hσ.lookup hbound) hfound hrefined).1⟩
    · exact ⟨t, (Entries.lookup_insert_of_ne heq).trans ht, .refl (hσ.lookup ht)⟩

end Observation

namespace Observations

theorem refl : Observations Allowed σ σ :=
  Relation.ReflTransGen.refl

theorem trans {σ₁ σ₂ σ₃ : Assignment} (h₁ : Observations Allowed σ₁ σ₂)
    (h₂ : Observations Allowed σ₂ σ₃) : Observations Allowed σ₁ σ₃ :=
  Relation.ReflTransGen.trans h₁ h₂

theorem mono (hsub : ∀ name, Allowed name → Allowed' name) (h : Observations Allowed σ σ') :
    Observations Allowed' σ σ' :=
  Relation.ReflTransGen.mono (fun _ _ => Observation.mono hsub) _ _ h

/-- The frame: other variables keep what they stand for. -/
theorem lookup_eq (h : Observations Allowed σ σ') (hname : ¬ Allowed name) :
    σ'.lookup name = σ.lookup name := by
  induction h with
  | refl => rfl
  | tail _ hstep ih => rw [hstep.lookup_eq hname, ih]

theorem eq_of_forall_not (h : Observations Allowed σ σ') (hnone : ∀ name, ¬ Allowed name) :
    σ' = σ := by
  rcases Relation.ReflTransGen.cases_head h with heq | ⟨_, hstep, _⟩
  · exact heq.symm
  · cases hstep with
    | bind hname _ _ | widen hname _ _ _ => exact absurd hname (hnone _)

theorem wellFormed (h : Observations Allowed σ σ') (hσ : Entries.All WellFormed σ) :
    Entries.All WellFormed σ' := by
  induction h with
  | refl => exact hσ
  | tail _ hstep ih => exact hstep.wellFormed ih

/-- Types only grow. -/
theorem exists_wider (h : Observations Allowed σ σ') (hσ : Entries.All WellFormed σ)
    (ht : σ.lookup name = some t) : ∃ u, σ'.lookup name = some u ∧ Fits t u := by
  induction h with
  | refl => exact ⟨t, ht, .refl (hσ.lookup ht)⟩
  | tail hrun hstep ih =>
    obtain ⟨u, hu, htu⟩ := ih
    obtain ⟨w, hw, huw⟩ := hstep.exists_wider (wellFormed hrun hσ) hu
    exact ⟨w, hw, htu.trans huw⟩

end Observations

end Observations

/-! ### Matches -/

namespace Ty

variable {a param actual : Ty} {params actuals : List Ty} {name : String} {σ σ' : Assignment}

theorem eq_of_fit (h : fit param actual σ = .ok σ') : σ' = σ := by
  unfold fit at h
  generalize (actual.isAny || _) = fits at h
  cases fits with
  | true => exact (Except.ok.inj h).symm
  | false => cases h

theorem fits_ground_of_fit (hparam : param.WellFormed) (hactual : actual.WellFormed)
    (hσ : Entries.All WellFormed σ) (hany : actual.isAny = false)
    (h : fit param actual σ = .ok σ') : Fits actual (param.ground σ') := by
  have hground : (if param.hasVar then param.ground σ else param) = param.ground σ := by
    split
    · rfl
    · rename_i hclosed
      have hclosed := hasVar_eq_false_iff.mp (Bool.eq_false_iff.mpr hclosed)
      exact (ground_of_closed hparam hclosed).symm
  obtain rfl := eq_of_fit h
  rw [fit, hany, Bool.false_or, hground] at h
  split at h
  · rename_i hsub
    exact fits_of_subtypeOf hactual (wellFormed_ground hparam hσ) hsub
  · cases h

theorem accept_var_cases (h : (var name).accept actual σ = .ok σ') :
    (σ.lookup name = none ∧ σ' = Entries.insert name actual σ) ∨
      ∃ bound refined, σ.lookup name = some bound ∧ refine? bound actual = some refined ∧
        σ' = Entries.insert name refined σ := by
  rw [accept] at h
  split at h
  · rename_i hnone
    exact Or.inl ⟨hnone, (Except.ok.inj h).symm⟩
  · rename_i bound hbound
    split at h
    · rename_i refined hrefined
      exact Or.inr ⟨bound, refined, hbound, hrefined, (Except.ok.inj h).symm⟩
    · cases h

theorem accept_var_covers (hactual : actual.WellFormed) (hσ : Entries.All WellFormed σ)
    (h : (var name).accept actual σ = .ok σ') :
    ∃ s, σ'.lookup name = some s ∧ (actual.isAny = false → Fits actual s) := by
  rcases accept_var_cases h with ⟨_, rfl⟩ | ⟨bound, refined, hbound, hrefined, rfl⟩
  · exact ⟨actual, Entries.lookup_insert_self, fun _ => .refl hactual⟩
  · exact ⟨refined, Entries.lookup_insert_self,
      (fits_of_refine? (hσ.lookup hbound) hactual hrefined).2⟩

theorem acceptAll_observations
    (haccept : ∀ p ∈ params, ∀ {actual σ σ'}, actual.WellFormed → p.accept actual σ = .ok σ' →
      Observations (· ∈ p.vars) σ σ')
    (hactuals : ∀ t ∈ actuals, t.WellFormed) (h : acceptAll params actuals σ = .ok σ') :
    Observations (· ∈ varsAll params) σ σ' := by
  induction params generalizing actuals σ with
  | nil => exact Except.ok.inj h ▸ .refl
  | cons p ps ih =>
    cases actuals with
    | nil => exact Except.ok.inj h ▸ .refl
    | cons t ts =>
      obtain ⟨ht, hts⟩ := List.forall_mem_cons.mp hactuals
      obtain ⟨hp, hps⟩ := List.forall_mem_cons.mp haccept
      rw [acceptAll] at h
      split at h
      · rename_i σ₁ hfirst
        have hhead := (hp ht hfirst).mono fun name hname => List.mem_append_left (varsAll ps) hname
        have htail := (ih hps hts h).mono fun name hname => List.mem_append_right p.vars hname
        exact hhead.trans htail
      · cases h

/-- A match observes variables of its parameter and no others. -/
theorem accept_observations (hactual : actual.WellFormed) (h : param.accept actual σ = .ok σ') :
    Observations (· ∈ param.vars) σ σ' := by
  induction param generalizing actual σ σ' with
  | var name =>
    have hname : name ∈ (var name).vars := List.mem_singleton_self name
    rcases accept_var_cases h with ⟨hnone, rfl⟩ | ⟨bound, refined, hbound, hrefined, rfl⟩
    · exact .single (.bind hname hactual hnone)
    · exact .single (.widen hname hactual hbound hrefined)
  | array p ih =>
    cases actual with
    | array a => exact ih (WellFormed.array_iff.mp hactual) h
    | any =>
      rw [accept] at h
      split at h
      · exact ih hactual h
      · exact Except.ok.inj h ▸ .refl
    | _ => exact eq_of_fit h ▸ .refl
  | function ps r ihps ihr =>
    cases actual with
    | function as s =>
      obtain ⟨has, hs⟩ := WellFormed.function_iff.mp hactual
      rw [accept] at h
      split at h
      · split at h
        · rename_i σ₁ hparams
          have hhead := (acceptAll_observations ihps has hparams).mono
            fun name hname => List.mem_append_left r.vars hname
          have htail := (ihr hs h).mono fun name hname => List.mem_append_right (varsAll ps) hname
          exact hhead.trans htail
        · cases h
      · exact eq_of_fit h ▸ .refl
    | _ => exact eq_of_fit h ▸ .refl
  | string | number | integer | boolean | null | any | object _ _ _ | union _ _ =>
    exact eq_of_fit h ▸ .refl

/-! ### What was matched fits -/

/-- Something is known about every part of the type, and no function stands in it. -/
def Definite (t : Ty) : Prop :=
  t.Everywhere fun s => s.isAny = false ∧ s.isFunction = false

instance : DecidablePred Definite :=
  inferInstanceAs (DecidablePred (Everywhere fun s => s.isAny = false ∧ s.isFunction = false))

theorem Definite.functionFree (h : a.Definite) : a.Everywhere fun s => s.isFunction = false :=
  fun s hs => (h s hs).2

theorem fits_ground_var {s : Ty} (hσ : Entries.All WellFormed σ) (ha : a.Definite)
    (hlookup : σ.lookup name = some s) (h : Fits a s) : Fits a ((var name).ground σ) := by
  refine fits_ground_of_fits_subst .var hσ ha.functionFree ?_
  rw [subst, hlookup]
  exact h

/-- A type that was matched with a parameter fits what the parameter comes down to right after the
match. -/
theorem accept_fits_ground (hparam : param.WellFormed) (hactual : actual.WellFormed)
    (hσ : Entries.All WellFormed σ) (hdefinite : actual.Definite)
    (h : param.accept actual σ = .ok σ') : Fits actual (param.ground σ') := by
  have hany : actual.isAny = false := hdefinite.head.1
  induction param generalizing actual with
  | var name =>
    have hσ' : Entries.All WellFormed σ' := (accept_observations hactual h).wellFormed hσ
    obtain ⟨s, hs, hcovers⟩ := accept_var_covers hactual hσ h
    exact fits_ground_var hσ' hdefinite hs (hcovers hany)
  | array p ih =>
    cases actual with
    | array a =>
      have hdefinite := (Everywhere.array_iff.mp hdefinite).2
      rw [ground_array]
      exact .array (ih (WellFormed.array_iff.mp hparam) (WellFormed.array_iff.mp hactual) hdefinite h
        hdefinite.head.1)
    | any => cases hany
    | _ => exact fits_ground_of_fit hparam hactual hσ hany h
  | function ps r _ _ =>
    cases actual with
    | function as s => cases hdefinite.head.2
    | _ => exact fits_ground_of_fit hparam hactual hσ hany h
  | string | number | integer | boolean | null | any | object _ _ _ | union _ _ =>
    exact fits_ground_of_fit hparam hactual hσ hany h

end Ty

end SchemaInfer
