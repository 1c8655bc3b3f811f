import SchemaInfer.Proofs.Matching
import Mathlib.Data.List.ProdSigma

/-!
# Parameters without variables

A parameter without type variables is matched without binding anything. On arguments about which
everything is known, it takes exactly its subtypes as long as functions do not meet functions. Where they
do, the match goes through the parameters and the result position by position and asks each of them for a
subtype, while a subtype of a function takes at least as much as the function does. So a function is
matched if its parameters are subtypes, and it is a subtype if its parameters are supertypes; the two come
down to the same where the parameters are equivalent.
-/

namespace SchemaInfer.Ty

variable {a p r s : Ty} {ps as : List Ty} {σ σ' : Assignment}

/-- Something is known about every part of the type. -/
def Known (t : Ty) : Prop :=
  t.Everywhere fun s => s.isAny = false

instance : DecidablePred Known :=
  inferInstanceAs (DecidablePred (Everywhere fun s => s.isAny = false))

/-- A parameter without variables and an argument about which everything is known. -/
structure Concrete (p a : Ty) : Prop where
  param : p.WellFormed
  actual : a.WellFormed
  closed : p.Closed
  known : a.Known

namespace Concrete

theorem array (h : Concrete (array p) (array a)) : Concrete p a where
  param := WellFormed.array_iff.mp h.param
  actual := WellFormed.array_iff.mp h.actual
  closed := Closed.array_iff.mp h.closed
  known := (Everywhere.array_iff.mp h.known).2

theorem params (h : Concrete (function ps r) (function as s)) (hp : p ∈ ps) (ha : a ∈ as) :
    Concrete p a where
  param := (WellFormed.function_iff.mp h.param).1 p hp
  actual := (WellFormed.function_iff.mp h.actual).1 a ha
  closed := (Closed.function_iff.mp h.closed).1 p hp
  known := (Everywhere.function_iff.mp h.known).2.1 a ha

theorem result (h : Concrete (function ps r) (function as s)) : Concrete r s where
  param := (WellFormed.function_iff.mp h.param).2
  actual := (WellFormed.function_iff.mp h.actual).2
  closed := (Closed.function_iff.mp h.closed).2
  known := (Everywhere.function_iff.mp h.known).2.2

theorem subtypeOf_iff_fits (h : Concrete p a) : a.subtypeOf p = true ↔ Fits a p :=
  Ty.subtypeOf_iff_fits h.actual h.param

end Concrete

/-- Where functions with the same number of parameters stand in both types, the parameters of the one are
equivalent to those of the other. -/
def AgreeOnParams : Ty → Ty → Prop
  | array p, array a => AgreeOnParams p a
  | function ps r, function as s => ps.length = as.length →
    (∀ pair ∈ ps.zip as, pair.1.subtypeOf pair.2 = true ∧ pair.2.subtypeOf pair.1 = true) ∧
      AgreeOnParams r s
  | _, _ => True

/-! ### Arrays and functions that fit -/

theorem array_fits_array_iff : Fits (array a) (array p) ↔ Fits a p := by
  constructor
  · intro h
    cases h with
    | primitive hprimitive => cases hprimitive
    | array hfits => exact hfits
  · exact .array

theorem mem_zip_swap (p a : Ty) : (p, a) ∈ ps.zip as ↔ (a, p) ∈ as.zip ps := by
  rw [← List.zip_swap, List.mem_map_swap]

/-- The parameters of a function that fits are fitted by those of the other. -/
theorem function_fits_function_iff : Fits (function as s) (function ps r) ↔
    ps.length = as.length ∧ (∀ pair ∈ ps.zip as, Fits pair.1 pair.2) ∧ Fits s r := by
  constructor
  · intro h
    cases h with
    | primitive hprimitive => cases hprimitive
    | function hlength hparams hresult =>
      exact ⟨hlength.symm, fun pair hpair => hparams _ _ ((mem_zip_swap _ _).mp hpair), hresult⟩
  · rintro ⟨hlength, hparams, hresult⟩
    exact .function hlength.symm (fun a p hpair => hparams (p, a) ((mem_zip_swap p a).mpr hpair)) hresult

/-! ### Matches without variables -/

theorem Concrete.fit_eq_ok_iff (h : Concrete p a) : p.fit a σ = .ok σ ↔ a.subtypeOf p = true := by
  have hany : a.isAny = false := h.known.head
  simp [fit, hany, hasVar_eq_false_iff.mpr h.closed]

theorem Concrete.eq_of_accept (h : Concrete p a) (haccept : p.accept a σ = .ok σ') : σ' = σ := by
  refine (accept_observations h.actual haccept).eq_of_forall_not fun name hname => ?_
  rw [vars_eq_nil h.closed] at hname
  cases hname

theorem acceptAll_eq_ok_iff (h : ∀ p ∈ ps, ∀ a ∈ as, Concrete p a) : acceptAll ps as σ = .ok σ' ↔
    σ' = σ ∧ ∀ pair ∈ ps.zip as, pair.1.accept pair.2 σ = .ok σ := by
  induction ps generalizing as with
  | nil => simp [acceptAll, eq_comm]
  | cons p ps ih =>
    cases as with
    | nil => simp [acceptAll, eq_comm]
    | cons a as =>
      have hrest : ∀ q ∈ ps, ∀ b ∈ as, Concrete q b := fun q hq b hb =>
        h q (List.mem_cons_of_mem _ hq) b (List.mem_cons_of_mem _ hb)
      rw [acceptAll, List.zip_cons_cons, List.forall_mem_cons]
      split
      · rename_i σ₁ hfirst
        obtain rfl := (h p List.mem_cons_self a List.mem_cons_self).eq_of_accept hfirst
        rw [ih hrest, and_iff_right hfirst]
      · rename_i failure hfirst
        simp [hfirst]

/-- Functions are matched position by position. -/
theorem function_accept_function_iff (h : Concrete (function ps r) (function as s))
    (hlength : ps.length = as.length) : (function ps r).accept (function as s) σ = .ok σ ↔
      (∀ pair ∈ ps.zip as, pair.1.accept pair.2 σ = .ok σ) ∧ r.accept s σ = .ok σ := by
  have hparams : ∀ σ', acceptAll ps as σ = .ok σ' ↔
      σ' = σ ∧ ∀ pair ∈ ps.zip as, pair.1.accept pair.2 σ = .ok σ :=
    fun σ' => acceptAll_eq_ok_iff fun p hp a ha => h.params hp ha
  rw [accept, if_pos hlength]
  split
  · rename_i σ₁ hfirst
    obtain ⟨rfl, hall⟩ := (hparams σ₁).mp hfirst
    exact (and_iff_right hall).symm
  · rename_i failure hfirst
    constructor
    · intro haccept
      cases haccept
    · rintro ⟨hall, _⟩
      rw [(hparams σ).mpr ⟨rfl, hall⟩] at hfirst
      cases hfirst

/-! ### Matches and subtypes -/

/-- Equivalent functions have equivalent parameters. -/
theorem agreeOnParams_of_equivalent (hp : p.WellFormed) (ha : a.WellFormed) (hap : Fits a p)
    (hpa : Fits p a) : AgreeOnParams p a := by
  induction p generalizing a with
  | array p ih =>
    cases a with
    | array a =>
      exact ih (WellFormed.array_iff.mp hp) (WellFormed.array_iff.mp ha) (array_fits_array_iff.mp hap)
        (array_fits_array_iff.mp hpa)
    | _ => trivial
  | function ps r _ ihresult =>
    cases a with
    | function as s =>
      intro _
      obtain ⟨hps, hr⟩ := WellFormed.function_iff.mp hp
      obtain ⟨has, hs⟩ := WellFormed.function_iff.mp ha
      obtain ⟨_, hforth, hsr⟩ := function_fits_function_iff.mp hap
      obtain ⟨_, hback, hrs⟩ := function_fits_function_iff.mp hpa
      refine ⟨fun pair hpair => ?_, ihresult hr hs hsr hrs⟩
      obtain ⟨hp, ha⟩ := List.of_mem_zip hpair
      have hswapped := (mem_zip_swap pair.1 pair.2).mp hpair
      exact ⟨subtypeOf_of_fits (hps _ hp) (has _ ha) (hforth pair hpair),
        subtypeOf_of_fits (has _ ha) (hps _ hp) (hback _ hswapped)⟩
    | _ => trivial
  | _ => trivial

/-- A match decides subtyping where functions agree on their parameters. -/
theorem Concrete.accept_eq_ok_iff (h : Concrete p a) (hagree : AgreeOnParams p a) :
    p.accept a σ = .ok σ ↔ a.subtypeOf p = true := by
  induction p generalizing a with
  | var name => exact absurd h.closed Closed.not_var
  | array p ih =>
    cases a with
    | array a =>
      rw [array_subtypeOf_array_iff]
      exact ih h.array hagree
    | any => cases h.known.head
    | _ => exact h.fit_eq_ok_iff
  | function ps r ihparams ihresult =>
    cases a with
    | function as s =>
      by_cases hlength : ps.length = as.length
      · obtain ⟨hparams, hresult⟩ := hagree hlength
        have hfits : ∀ pair ∈ ps.zip as, Fits pair.1 pair.2 := by
          intro pair hpair
          obtain ⟨hp, ha⟩ := List.of_mem_zip hpair
          have hpart := h.params hp ha
          exact fits_of_subtypeOf hpart.param hpart.actual (hparams pair hpair).1
        -- equivalent parameters agree on their own parameters, so they are matched as subtypes
        have haccept : ∀ pair ∈ ps.zip as, pair.1.accept pair.2 σ = .ok σ := by
          intro pair hpair
          obtain ⟨hp, ha⟩ := List.of_mem_zip hpair
          have hpart := h.params hp ha
          have hsub := (hparams pair hpair).2
          refine (ihparams _ hp hpart ?_).mpr hsub
          exact agreeOnParams_of_equivalent hpart.param hpart.actual (hpart.subtypeOf_iff_fits.mp hsub)
            (hfits pair hpair)
        rw [function_accept_function_iff h hlength, and_iff_right haccept, ihresult h.result hresult,
          h.subtypeOf_iff_fits, function_fits_function_iff, and_iff_right hlength, and_iff_right hfits,
          h.result.subtypeOf_iff_fits]
      · rw [accept, if_neg hlength]
        exact h.fit_eq_ok_iff
    | _ => exact h.fit_eq_ok_iff
  | string | number | integer | boolean | null | any | object _ _ _ | union _ _ =>
    exact h.fit_eq_ok_iff

/-- **A parameter without variables takes its subtypes and binds nothing**, on arguments about which
everything is known and where functions agree on their parameters. Functions with the same number of
parameters are matched exactly if each parameter and the result are subtypes of those of the parameter,
whereas they are subtypes if their parameters are supertypes. -/
theorem accept_iff_subtypeOf_of_closed (hp : p.WellFormed) (ha : a.WellFormed) (hclosed : p.Closed)
    (hknown : a.Known) (σ : Assignment) :
    (∀ σ', p.accept a σ = .ok σ' → σ' = σ) ∧
      (AgreeOnParams p a → (p.accept a σ = .ok σ ↔ a.subtypeOf p = true)) ∧
      ∀ ps r as s, p = function ps r → a = function as s → ps.length = as.length →
        (∀ pair ∈ ps.zip as, AgreeOnParams pair.1 pair.2) → AgreeOnParams r s →
        (p.accept a σ = .ok σ ↔
          (∀ pair ∈ ps.zip as, pair.2.subtypeOf pair.1 = true) ∧ s.subtypeOf r = true) := by
  have h : Concrete p a := ⟨hp, ha, hclosed, hknown⟩
  refine ⟨fun σ' => h.eq_of_accept, h.accept_eq_ok_iff, ?_⟩
  rintro ps r as s rfl rfl hlength hparams hresult
  rw [function_accept_function_iff h hlength, h.result.accept_eq_ok_iff hresult]
  refine and_congr_left' (forall₂_congr fun pair hpair => ?_)
  obtain ⟨hp, ha⟩ := List.of_mem_zip hpair
  exact (h.params hp ha).accept_eq_ok_iff (hparams pair hpair)

/-- The parameters are the same up to the order of alternatives, and the result is a subtype. -/
theorem accept_iff_subtypeOf_of_closed_of_reordered :
    let p : Ty := array (function [integer, union [string, null]] number)
    let a : Ty := array (function [integer, union [null, string]] integer)
    let σ : Assignment := [("T", string)]
    (p.WellFormed ∧ a.WellFormed ∧ p.Closed ∧ a.Known ∧ AgreeOnParams p a) ∧
      a.subtypeOf p = true ∧ p.accept a σ = .ok σ := by
  intro p a σ
  have hp : p.WellFormed := by decide
  have ha : a.WellFormed := by decide
  have hclosed : p.Closed := by decide
  have hknown : a.Known := by decide
  have hagree : AgreeOnParams p a := by
    refine fun _ => ⟨List.forall_mem_cons.mpr ⟨?_, List.forall_mem_singleton.mpr ?_⟩, trivial⟩
    · exact ⟨subtypeOf_of_beq rfl, subtypeOf_of_beq rfl⟩
    · exact ⟨subtypeOf_of_beq rfl, subtypeOf_of_beq rfl⟩
  have hsub : a.subtypeOf p = true := by
    refine subtypeOf_of_fits ha hp (.array (function_fits_function_iff.mpr ⟨rfl, ?_, .integer⟩))
    refine List.forall_mem_cons.mpr ⟨.primitive rfl, List.forall_mem_singleton.mpr ?_⟩
    exact fits_of_subtypeOf (by decide) (by decide) (subtypeOf_of_beq rfl)
  have haccept := (accept_iff_subtypeOf_of_closed hp ha hclosed hknown σ).2.1 hagree
  exact ⟨⟨hp, ha, hclosed, hknown, hagree⟩, hsub, haccept.mpr hsub⟩

/-- A function of integers is taken for a function of numbers, although it is no subtype; a function of
numbers is a subtype of a function of integers and is turned down. -/
theorem accept_ne_subtypeOf_of_functions :
    let p : Ty := function [number] boolean
    let a : Ty := function [integer] boolean
    (p.WellFormed ∧ a.WellFormed ∧ p.Closed ∧ a.Closed ∧ p.Known ∧ a.Known) ∧
      p.accept a [] = .ok [] ∧ a.subtypeOf p = false ∧
      a.accept p [] ≠ .ok [] ∧ p.subtypeOf a = true := by
  intro p a
  have hpa : Concrete p a := ⟨by decide, by decide, by decide, by decide⟩
  have hap : Concrete a p := ⟨by decide, by decide, by decide, by decide⟩
  have hinteger : Concrete number integer := hpa.params List.mem_cons_self List.mem_cons_self
  have hnumber : Concrete integer number := hap.params List.mem_cons_self List.mem_cons_self
  have hnot : ¬ Fits number integer := by
    intro h
    cases h
  refine ⟨⟨hpa.param, hpa.actual, hpa.closed, hap.closed, hap.known, hpa.known⟩, ?_, ?_, ?_, ?_⟩
  · rw [function_accept_function_iff hpa rfl]
    constructor
    · refine List.forall_mem_singleton.mpr ((hinteger.accept_eq_ok_iff trivial).mpr ?_)
      exact hinteger.subtypeOf_iff_fits.mpr .integer
    · exact (hpa.result.accept_eq_ok_iff trivial).mpr (subtypeOf_of_beq rfl)
  · rw [Bool.eq_false_iff, ne_eq, hpa.subtypeOf_iff_fits, function_fits_function_iff]
    rintro ⟨_, hparams, _⟩
    exact hnot (hparams _ List.mem_cons_self)
  · rw [ne_eq, function_accept_function_iff hap rfl]
    rintro ⟨hparams, _⟩
    have haccept := hparams _ List.mem_cons_self
    exact hnot (hnumber.subtypeOf_iff_fits.mp ((hnumber.accept_eq_ok_iff trivial).mp haccept))
  · refine hap.subtypeOf_iff_fits.mpr (function_fits_function_iff.mpr ⟨rfl, ?_, .primitive rfl⟩)
    exact List.forall_mem_singleton.mpr .integer

end SchemaInfer.Ty
