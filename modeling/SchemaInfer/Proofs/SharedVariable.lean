import SchemaInfer.Proofs.Calls
import SchemaInfer.Proofs.JoinLeastUpperBound
import Mathlib.Data.List.Perm.Basic

/-!
# A type variable that all arguments share

Where every parameter of a function is the same type variable, each argument of a call observes it. An
observation widens the type that the variable stands for by one of several routes: it keeps the wider of
two related types, it adds null, or it sets null aside on both sides and adds it again. All of them lead to
a least upper bound of the old type and the type found, so after all arguments the variable stands for a
least upper bound of their types, which does not depend on their order.
-/

namespace SchemaInfer

namespace Ty

variable {t c bound found refined : Ty} {types : List Ty}

/-! ### Observations take least upper bounds -/

theorem null_fits_of_admitsNull (h : t.admitsNull = true) : Fits null t := by
  cases t with
  | null => exact .primitive rfl
  | any => exact .any
  | union ms =>
    obtain ⟨m, hm, hnull⟩ := List.any_eq_true.mp h
    obtain rfl := eq_null_of_isNull hnull
    exact .unionRight hm (.primitive rfl)
  | _ => cases h

theorem orNull_fits (ht : t.WellFormed) (hfits : Fits t c) (hnull : Fits null c) :
    Fits t.orNull c := by
  unfold orNull
  split
  · exact hnull
  · exact hfits
  · have hpair : ∀ s ∈ [t, null], s.WellFormed := forall_mem_pair.mpr ⟨ht, .of_isPrimitive rfl⟩
    exact (oneOf_fits_iff (List.cons_ne_nil _ _) hpair).mpr (forall_mem_pair.mpr ⟨hfits, hnull⟩)

theorem fits_of_wider?_eq_some {wider : Ty} (h : wider? bound found = some wider)
    (hbound : Fits bound c) (hfound : Fits found c) : Fits wider c := by
  rcases eq_or_eq_of_wider? h with rfl | rfl
  · exact hbound
  · exact hfound

/-- What a variable stands for after an observation fits whatever the old type and the type found fit. -/
theorem refine?_fits (hbound : bound.WellFormed) (hfound : found.WellFormed)
    (h : refine? bound found = some refined) (hboundc : Fits bound c) (hfoundc : Fits found c) :
    Fits refined c := by
  unfold refine? at h
  split at h
  · rename_i wider hwider
    exact Option.some.inj h ▸ fits_of_wider?_eq_some hwider hboundc hfoundc
  split at h
  · rename_i hnull
    exact Option.some.inj h ▸ orNull_fits hbound hboundc (eq_null_of_isNull hnull ▸ hfoundc)
  split at h
  · rename_i hnull
    exact Option.some.inj h ▸ orNull_fits hfound hfoundc (eq_null_of_isNull hnull ▸ hboundc)
  split at h
  · rename_i hadmits
    obtain ⟨wider, hwider, rfl⟩ := Option.map_eq_some_iff.mp h
    have hnull : Fits null c := by
      rcases Bool.or_eq_true_iff.mp hadmits with hadmits | hadmits
      · exact (null_fits_of_admitsNull hadmits).trans hboundc
      · exact (null_fits_of_admitsNull hadmits).trans hfoundc
    have hwf : wider.WellFormed := by
      rcases eq_or_eq_of_wider? hwider with rfl | rfl
      · exact wellFormed_invariant.withoutNull hbound
      · exact wellFormed_invariant.withoutNull hfound
    refine orNull_fits hwf (fits_of_wider?_eq_some hwider ?_ ?_) hnull
    · exact (withoutNull_fits hbound).trans hboundc
    · exact (withoutNull_fits hfound).trans hfoundc
  · cases h

/-- A well-formed type without variables that says something. -/
structure Observable (t : Ty) : Prop where
  wellFormed : t.WellFormed
  closed : t.Closed
  known : t.isAny = false

theorem isLeastUpperBound_singleton (ht : t.WellFormed) : IsLeastUpperBound t [t] where
  wellFormed := ht
  upper := List.forall_mem_singleton.mpr (subtypeOf_of_fits ht ht (.refl ht))
  least _ _ hall := hall t (List.mem_singleton_self t)

/-- One more observation makes a least upper bound of the types seen before one of all the types seen. -/
theorem IsLeastUpperBound.refine? (h : IsLeastUpperBound bound types)
    (htypes : ∀ t ∈ types, t.WellFormed) (hobservable : found.Observable)
    (hrefined : Ty.refine? bound found = some refined) :
    IsLeastUpperBound refined (types ++ [found]) := by
  have hfound := hobservable.wellFormed
  have hwf : refined.WellFormed := wellFormed_invariant.refine? h.wellFormed hfound hrefined
  obtain ⟨hold, hnew⟩ := fits_of_refine? h.wellFormed hfound hrefined
  refine ⟨hwf, ?_, fun c hc hall => ?_⟩
  · refine List.forall_mem_append.mpr ⟨fun t ht => ?_, List.forall_mem_singleton.mpr ?_⟩
    · have hbound := fits_of_subtypeOf (htypes t ht) h.wellFormed (h.upper t ht)
      exact subtypeOf_of_fits (htypes t ht) hwf (hbound.trans hold)
    · exact subtypeOf_of_fits hfound hwf (hnew hobservable.known)
  · obtain ⟨htypesc, hfoundc⟩ := List.forall_mem_append.mp hall
    have hboundc := fits_of_subtypeOf h.wellFormed hc (h.least c hc htypesc)
    have hfoundc := fits_of_subtypeOf hfound hc (hfoundc found (List.mem_singleton_self found))
    exact subtypeOf_of_fits hwf hc (refine?_fits h.wellFormed hfound hrefined hboundc hfoundc)

end Ty

/-- Every parameter of the function, repeated or not, and its result are the same type variable. -/
structure Signature.Shares (sig : Signature) (name : String) : Prop where
  params : ∀ param ∈ sig.params, param = .var name
  result : sig.result = .var name

namespace Typing

open Ty (IsLeastUpperBound)

variable {library : Library} {scope : Scope} {sig : Signature} {location : Option Location}
  {function name : String} {args : List Expr} {count position : Nat} {actual result : Ty}
  {types seen : List Ty} {σ σ' : Assignment}

/-! ### The rounds over the arguments -/

/-- What a variable stands for after types have been observed: nothing at first, then a least upper bound
of them. -/
inductive Gathered (name : String) (σ : Assignment) : List Ty → Prop
  | nothing : σ.lookup name = none → Gathered name σ []
  | bound {t : Ty} {types : List Ty} : σ.lookup name = some t → t.Closed →
    IsLeastUpperBound t types → Gathered name σ types

theorem Gathered.checkArgument (h : Gathered name σ seen) (hseen : ∀ t ∈ seen, t.WellFormed)
    (hactual : actual.Observable)
    (hcheck : checkArgument sig position (.var name) actual σ location = .ok σ') :
    Gathered name σ' (seen ++ [actual]) := by
  have haccept := (checkArgument_eq_ok hcheck).1
  rcases Ty.accept_var_cases haccept with ⟨hnone, rfl⟩ | ⟨bound, refined, hbound, hrefined, rfl⟩
  · cases h with
    | nothing _ =>
      exact .bound Entries.lookup_insert_self hactual.closed
        (Ty.isLeastUpperBound_singleton hactual.wellFormed)
    | bound hsome _ _ => cases hnone.symm.trans hsome
  · cases h with
    | nothing hnone => cases hnone.symm.trans hbound
    | bound hsome hclosed hleast =>
      obtain rfl := Option.some.inj (hsome.symm.trans hbound)
      exact .bound Entries.lookup_insert_self
        (closed_invariant.refine? hclosed hactual.closed hrefined)
        (hleast.refine? hseen hactual hrefined)

/-- The first round gathers the types of the arguments. -/
theorem Gathered.bindPlain (hsig : sig.Shares name) (h : Gathered name σ seen)
    (hseen : ∀ t ∈ seen, t.WellFormed)
    (hargs : List.Forall₂ (fun arg t => infer library scope arg = .ok t) args types)
    (htypes : ∀ t ∈ types, t.Observable)
    (hround : bindPlain library scope sig count location position σ args = .ok σ') :
    Gathered name σ' (seen ++ types) := by
  induction hargs generalizing position σ seen with
  | nil =>
    rw [List.append_nil]
    exact Except.ok.inj hround ▸ h
  | @cons arg t args types harg _ ih =>
    obtain ⟨ht, htypes⟩ := List.forall_mem_cons.mp htypes
    obtain ⟨param, hparam, ⟨hlater, _⟩ | ⟨_, actual, σ₁, hactual, hcheck, hrest⟩⟩ :=
      bindPlain_cons_eq_ok hround
    · rw [hsig.params param (sig.mem_params_of_paramAt? hparam)] at hlater
      simp [Ty.isFunction] at hlater
    · obtain rfl := Except.ok.inj (harg.symm.trans hactual)
      rw [hsig.params param (sig.mem_params_of_paramAt? hparam)] at hcheck
      rw [List.append_cons]
      refine ih (h.checkArgument hseen ht hcheck) ?_ htypes hrest
      exact List.forall_mem_append.mpr ⟨hseen, List.forall_mem_singleton.mpr ht.wellFormed⟩

/-- The second round has nothing to do. -/
theorem eq_of_bindLambdas (hsig : sig.Shares name)
    (h : bindLambdas library scope sig location position σ args = .ok σ') : σ' = σ := by
  induction args generalizing position with
  | nil => exact (Except.ok.inj h).symm
  | cons arg args ih =>
    rcases bindLambdas_cons_cases h with hrest | ⟨_, _, _, params, returns, _, hparam⟩
    · exact ih hrest
    · cases hsig.params _ (sig.mem_params_of_paramAt? hparam)

/-! ### Calls -/

section Calls

variable (hfound : library.find? function = some sig) (hsig : sig.Shares name)
include hfound hsig

/-- What the variable stands for at the end is the type of the call. -/
theorem gathered_of_call
    (hargs : List.Forall₂ (fun arg t => infer library scope arg = .ok t) args types)
    (htypes : ∀ t ∈ types, t.Observable)
    (hcall : infer library scope (.call function args location) = .ok result) :
    ∃ σ, Gathered name σ types ∧ result = (Ty.var name).ground σ := by
  obtain ⟨sig', σ₀, σ, hbinds, rfl⟩ := infer_call_eq_ok_iff.mp hcall
  obtain rfl := Option.some.inj (hfound.symm.trans hbinds.found)
  obtain rfl := eq_of_bindLambdas hsig hbinds.lambdas
  refine ⟨σ, ?_, by rw [hsig.result]⟩
  exact Gathered.bindPlain hsig (.nothing rfl) (List.forall_mem_nil _) hargs htypes hbinds.plain

theorem isLeastUpperBound_of_call
    (hargs : List.Forall₂ (fun arg t => infer library scope arg = .ok t) args types)
    (htypes : ∀ t ∈ types, t.Observable) (hne : types ≠ [])
    (hcall : infer library scope (.call function args location) = .ok result) :
    IsLeastUpperBound result types := by
  obtain ⟨σ, hgathered, rfl⟩ := gathered_of_call hfound hsig hargs htypes hcall
  cases hgathered with
  | nothing _ => exact absurd rfl hne
  | bound hsome hclosed hleast => exact Ty.ground_var hsome hclosed ▸ hleast

theorem eq_any_of_call_nil (hcall : infer library scope (.call function [] location) = .ok result) :
    result = .any := by
  obtain ⟨sig', σ₀, σ, hbinds, rfl⟩ := infer_call_eq_ok_iff.mp hcall
  obtain rfl := Option.some.inj (hfound.symm.trans hbinds.found)
  obtain rfl := Except.ok.inj hbinds.plain
  obtain rfl := Except.ok.inj hbinds.lambdas
  rw [hsig.result]
  simp [Ty.ground, Ty.subst, Ty.hasVar, Ty.vars, Ty.lookup_anyFor]

/-- **A shared type variable stands for the join of the arguments.** Where all parameters of a function and
its result are the same type variable, and the arguments have well-formed types without variables, none of
them `any`, a call that is accepted has a type that is equivalent to the join of the types of its arguments;
and the arguments in any other order give an equivalent type, if that call is accepted. -/
theorem call_equivalent_join
    (hargs : List.Forall₂ (fun arg t => infer library scope arg = .ok t) args types)
    (htypes : ∀ t ∈ types, t.Observable)
    (hcall : infer library scope (.call function args location) = .ok result) :
    (∀ joined, Ty.joinAll? types = some joined →
        result.subtypeOf joined = true ∧ joined.subtypeOf result = true) ∧
      ∀ args' location' result', args'.Perm args →
        infer library scope (.call function args' location') = .ok result' →
        result.subtypeOf result' = true ∧ result'.subtypeOf result = true := by
  cases types with
  | nil =>
    cases hargs
    refine ⟨fun joined hjoined => ?_, fun args' location' result' hperm hcall' => ?_⟩
    · cases hjoined
    · obtain rfl := hperm.eq_nil
      rw [eq_any_of_call_nil hfound hsig hcall, eq_any_of_call_nil hfound hsig hcall']
      exact ⟨Ty.subtypeOf_any, Ty.subtypeOf_any⟩
  | cons t ts =>
    have hne : t :: ts ≠ [] := List.cons_ne_nil t ts
    have hbound := isLeastUpperBound_of_call hfound hsig hargs htypes hne hcall
    refine ⟨fun joined hjoined => ?_, fun args' location' result' hperm hcall' => ?_⟩
    · obtain rfl := Option.some.inj hjoined
      have hjoin := Ty.foldl_join_isLeastUpperBound fun t ht => (htypes t ht).wellFormed
      exact ⟨hbound.subtypeOf hjoin fun _ ht => ht, hjoin.subtypeOf hbound fun _ ht => ht⟩
    · obtain ⟨types', hargs', hperm'⟩ := List.perm_comp_forall₂ hperm hargs
      have hbound' := isLeastUpperBound_of_call hfound hsig hargs'
        (fun t ht => htypes t (hperm'.subset ht)) (fun hnil => hne (hnil ▸ hperm').nil_eq.symm) hcall'
      exact ⟨hbound.subtypeOf hbound' fun _ ht => hperm'.mem_iff.mpr ht,
        hbound'.subtypeOf hbound fun _ ht => hperm'.mem_iff.mp ht⟩

end Calls

theorem exists_shares_coalesce :
    ∃ sig, Library.standard.find? "coalesce" = some sig ∧ sig.Shares "T" :=
  ⟨_, rfl, fun _ hparam => List.mem_singleton.mp hparam, rfl⟩

/-- The call sets null aside and keeps the wider type, where the join keeps both; and in the other order it
starts with a union that stays. -/
theorem call_equivalent_join_of_coalesce :
    let scope : Scope := ((Scope.empty.bind "price" .number).bind "count" (.union [.null, .integer])).bind
      "amount" (.union [.integer, .number])
    let args : List Expr := [.path "price" none, .path "count" none, .path "amount" none]
    let types : List Ty := [.number, .union [.null, .integer], .union [.integer, .number]]
    let result : Ty := .union [.number, .null]
    let joined : Ty := .union [.number, .null, .integer]
    let result' : Ty := .union [.integer, .number, .null]
    (∀ t ∈ types, t.Observable) ∧ Ty.joinAll? types = some joined ∧
      infer .standard scope (.call "coalesce" args none) = .ok result ∧
      infer .standard scope (.call "coalesce" args.reverse none) = .ok result' ∧
      (result.subtypeOf joined = true ∧ joined.subtypeOf result = true) ∧
      result.subtypeOf result' = true ∧ result'.subtypeOf result = true := by
  intro scope args types result joined result'
  obtain ⟨sig, hfound, hsig⟩ := exists_shares_coalesce
  have hargs : List.Forall₂ (fun arg t => infer .standard scope arg = .ok t) args types :=
    .cons rfl (.cons rfl (.cons rfl .nil))
  have htypes : ∀ t ∈ types, t.Observable := by
    have hdecided : ∀ t ∈ types, t.WellFormed ∧ t.Closed ∧ t.isAny = false := by decide
    exact fun t ht => ⟨(hdecided t ht).1, (hdecided t ht).2.1, (hdecided t ht).2.2⟩
  have hjoined : Ty.joinAll? types = some joined := by with_unfolding_all rfl
  have hcall : infer .standard scope (.call "coalesce" args none) = .ok result := by
    with_unfolding_all rfl
  have hcall' : infer .standard scope (.call "coalesce" args.reverse none) = .ok result' := by
    with_unfolding_all rfl
  obtain ⟨hjoin, horder⟩ := call_equivalent_join hfound hsig hargs htypes hcall
  exact ⟨htypes, hjoined, hcall, hcall', hjoin joined hjoined,
    horder _ _ _ (List.reverse_perm args) hcall'⟩

end Typing

end SchemaInfer
