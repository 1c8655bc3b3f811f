import SchemaInfer.Library.Standard
import SchemaInfer.Proofs.Matching

/-!
# The two rounds over the arguments of a call

A call that is accepted took its arguments in two rounds (`Typing.Binds`), and its type is the declared
result under the assignment that the second round ends with. The results below cut each round at one
argument: what was matched there, and that the arguments before and after it observed no variables but
those of their own parameters.
-/

namespace SchemaInfer

namespace Signature

variable {sig : Signature} {name : String} {positions positions' : Nat → Prop}

/-- A variable stands in the type of a parameter at one of the positions. -/
def Mentions (sig : Signature) (positions : Nat → Prop) (name : String) : Prop :=
  ∃ i param, positions i ∧ sig.paramAt? i = some param ∧ name ∈ param.vars

/-- A variable stands in the result type of a function that a parameter at one of the positions takes. -/
def ResultMentions (sig : Signature) (positions : Nat → Prop) (name : String) : Prop :=
  ∃ i params result, positions i ∧ sig.paramAt? i = some (.function params result) ∧
    name ∈ result.vars

theorem Mentions.mono (hsub : ∀ i, positions i → positions' i) (h : sig.Mentions positions name) :
    sig.Mentions positions' name := by
  obtain ⟨i, param, hi, hparam, hname⟩ := h
  exact ⟨i, param, hsub i hi, hparam, hname⟩

theorem ResultMentions.mono (hsub : ∀ i, positions i → positions' i)
    (h : sig.ResultMentions positions name) : sig.ResultMentions positions' name := by
  obtain ⟨i, params, result, hi, hparam, hname⟩ := h
  exact ⟨i, params, result, hsub i hi, hparam, hname⟩

theorem getElem?_of_paramAt? {i : Nat} {param : Ty} (sig : Signature)
    (hvariadic : sig.variadic = false) (hparam : sig.paramAt? i = some param) :
    sig.params[i]? = some param := by
  unfold paramAt? at hparam
  split at hparam
  · rename_i found hfound
    rw [hfound, hparam]
  · simp [hvariadic] at hparam

theorem mem_eraseIdx_of_paramAt? {i j : Nat} {param : Ty} (sig : Signature)
    (hvariadic : sig.variadic = false) (hj : j ≠ i) (hparam : sig.paramAt? j = some param) :
    param ∈ sig.params.eraseIdx i :=
  List.mem_eraseIdx_iff_getElem?.mpr ⟨j, hj, sig.getElem?_of_paramAt? hvariadic hparam⟩

end Signature

namespace Typing

open Ty (WellFormed)

variable {library : Library} {scope : Scope} {sig : Signature} {location : Option Location}
  {name : String} {arg : Expr} {args before after : List Expr} {count position i : Nat}
  {param actual t : Ty} {σ σ' : Assignment}

theorem checkArgument_eq_ok (h : checkArgument sig position param actual σ location = .ok σ') :
    param.accept actual σ = .ok σ' ∧
      (param.isArray = true → sig.takesFunction = true →
        actual.isArray = true ∨ actual.isAny = true ∨ actual.subtypeOf param = true) := by
  unfold checkArgument at h
  split at h
  · cases h
  · rename_i hguard
    constructor
    · split at h
      · rename_i σ₁ heq
        rw [heq, Except.ok.inj h]
      · cases h
      · cases h
    · intro harray htakes
      by_contra hnone
      simp only [not_or, Bool.not_eq_true] at hnone
      simp [harray, htakes, hnone] at hguard

theorem checkArgument_observations (hactual : actual.WellFormed)
    (h : checkArgument sig position param actual σ location = .ok σ') :
    Observations (· ∈ param.vars) σ σ' :=
  Ty.accept_observations hactual (checkArgument_eq_ok h).1

/-! ### The first round -/

theorem bindPlain_append : bindPlain library scope sig count location position σ (before ++ after) =
    bindPlain library scope sig count location position σ before >>= fun σ₁ =>
      bindPlain library scope sig count location (position + before.length) σ₁ after := by
  induction before generalizing position σ with
  | nil => rfl
  | cons arg before ih =>
    have hshift : position + (arg :: before).length = position + 1 + before.length := by
      rw [List.length_cons]
      omega
    rw [List.cons_append, bindPlain, bindPlain, hshift]
    split
    · rfl
    · split
      · exact ih
      · simp only [ih, bind_assoc]

theorem bindPlain_cons_eq_ok
    (h : bindPlain library scope sig count location position σ (arg :: args) = .ok σ') :
    ∃ param, sig.paramAt? position = some param ∧
      (((arg.isLambda && param.isFunction) = true ∧
          bindPlain library scope sig count location (position + 1) σ args = .ok σ') ∨
        ((arg.isLambda && param.isFunction) = false ∧ ∃ actual σ₁,
          infer library scope arg = .ok actual ∧
          checkArgument sig position param actual σ location = .ok σ₁ ∧
          bindPlain library scope sig count location (position + 1) σ₁ args = .ok σ')) := by
  rw [bindPlain] at h
  split at h
  · cases h
  · rename_i param hparam
    refine ⟨param, hparam, ?_⟩
    split at h
    · rename_i hlater
      exact Or.inl ⟨hlater, h⟩
    · rename_i hnow
      obtain ⟨actual, hactual, h⟩ := bind_eq_ok_iff.mp h
      obtain ⟨σ₁, hσ₁, h⟩ := bind_eq_ok_iff.mp h
      exact Or.inr ⟨Bool.eq_false_iff.mpr hnow, actual, σ₁, hactual, hσ₁, h⟩

theorem bindPlain_observations
    (hinfer : ∀ arg t, infer library scope arg = .ok t → t.WellFormed)
    (h : bindPlain library scope sig count location position σ args = .ok σ') :
    Observations (sig.Mentions fun i => position ≤ i ∧ i < position + args.length) σ σ' := by
  induction args generalizing position σ with
  | nil => exact Except.ok.inj h ▸ .refl
  | cons arg args ih =>
    have hlater : ∀ i, position + 1 ≤ i ∧ i < position + 1 + args.length →
        position ≤ i ∧ i < position + (arg :: args).length := by
      simp only [List.length_cons]
      omega
    obtain ⟨param, hparam, ⟨_, hrest⟩ | ⟨_, actual, σ₁, hactual, hcheck, hrest⟩⟩ :=
      bindPlain_cons_eq_ok h
    · exact (ih hrest).mono fun name => Signature.Mentions.mono hlater
    · have hhere := (checkArgument_observations (hinfer arg actual hactual) hcheck).mono
        fun name hname => (⟨position, param, by simp, hparam, hname⟩ :
          sig.Mentions (fun i => position ≤ i ∧ i < position + (arg :: args).length) name)
      exact hhere.trans ((ih hrest).mono fun name => Signature.Mentions.mono hlater)

/-! ### The second round -/

theorem bindLambdas_append :
    bindLambdas library scope sig location position σ (before ++ after) =
      bindLambdas library scope sig location position σ before >>= fun σ₁ =>
        bindLambdas library scope sig location (position + before.length) σ₁ after := by
  induction before generalizing position σ with
  | nil => rfl
  | cons arg before ih =>
    have hshift : position + (arg :: before).length = position + 1 + before.length := by
      rw [List.length_cons]
      omega
    rw [List.cons_append, hshift]
    cases arg with
    | lambda names body place =>
      rw [bindLambdas, bindLambdas]
      split
      · split
        · rfl
        · simp only [ih, bind_assoc]
      · exact ih
    | _ => exact ih

theorem bindLambdas_lambda_eq_ok {names : List String} {body : Expr} {place : Option Location}
    {params : List Ty} {result : Ty} (hparam : sig.paramAt? position = some (.function params result))
    (h : bindLambdas library scope sig location position σ (.lambda names body place :: args) =
      .ok σ') :
    ∃ actual σ₁,
      infer library (scope.enterAll names (params.map fun p => p.ground σ)) body = .ok actual ∧
      checkArgument sig position result actual σ location = .ok σ₁ ∧
      bindLambdas library scope sig location (position + 1) σ₁ args = .ok σ' := by
  rw [bindLambdas, hparam] at h
  dsimp only at h
  split at h
  · cases h
  · obtain ⟨actual, hactual, h⟩ := bind_eq_ok_iff.mp h
    obtain ⟨σ₁, hσ₁, h⟩ := bind_eq_ok_iff.mp h
    exact ⟨actual, σ₁, hactual, hσ₁, h⟩

theorem bindLambdas_cons_cases
    (h : bindLambdas library scope sig location position σ (arg :: args) = .ok σ') :
    bindLambdas library scope sig location (position + 1) σ args = .ok σ' ∨
      ∃ names body place params result, arg = .lambda names body place ∧
        sig.paramAt? position = some (.function params result) := by
  cases arg with
  | lambda names body place =>
    by_cases hparam : ∃ params result, sig.paramAt? position = some (.function params result)
    · obtain ⟨params, result, hparam⟩ := hparam
      exact Or.inr ⟨names, body, place, params, result, rfl, hparam⟩
    · rw [bindLambdas] at h
      split at h
      · rename_i params result hfunction
        exact absurd ⟨params, result, hfunction⟩ hparam
      · exact Or.inl h
  | _ => exact Or.inl h

theorem wellFormed_body {names : List String} {body : Expr} {params : List Ty} {result : Ty}
    (hlibrary : library.AllDeclared WellFormed) (hscope : scope.AllBound WellFormed)
    (hparam : (Ty.function params result).WellFormed) (hσ : Entries.All WellFormed σ)
    (h : infer library (scope.enterAll names (params.map fun p => p.ground σ)) body = .ok t) :
    t.WellFormed := by
  obtain ⟨hparams, _⟩ := WellFormed.function_iff.mp hparam
  have htypes : ∀ s ∈ params.map fun p => p.ground σ, s.WellFormed :=
    List.forall_mem_map.mpr fun p hp => Ty.wellFormed_ground (hparams p hp) hσ
  exact (wellFormed_invariant.infer hlibrary
    (wellFormed_invariant.enterAll names htypes hscope)).of_eq_ok h

theorem bindLambdas_observations (hlibrary : library.AllDeclared WellFormed)
    (hscope : scope.AllBound WellFormed) (hsig : ∀ p ∈ sig.params, p.WellFormed)
    (hσ : Entries.All WellFormed σ)
    (h : bindLambdas library scope sig location position σ args = .ok σ') :
    Observations (sig.ResultMentions fun i => position ≤ i ∧ i < position + args.length) σ σ' := by
  induction args generalizing position σ with
  | nil => exact Except.ok.inj h ▸ .refl
  | cons arg args ih =>
    have hlater : ∀ i, position + 1 ≤ i ∧ i < position + 1 + args.length →
        position ≤ i ∧ i < position + (arg :: args).length := by
      simp only [List.length_cons]
      omega
    rcases bindLambdas_cons_cases h with hrest | ⟨names, body, place, params, result, rfl, hparam⟩
    · exact (ih hσ hrest).mono fun name => Signature.ResultMentions.mono hlater
    · obtain ⟨actual, σ₁, hactual, hcheck, hrest⟩ := bindLambdas_lambda_eq_ok hparam h
      have hfunction := hsig _ (sig.mem_params_of_paramAt? hparam)
      have hobserved :=
        checkArgument_observations (wellFormed_body hlibrary hscope hfunction hσ hactual) hcheck
      have hhere := hobserved.mono fun name hname =>
        (⟨position, params, result, by simp, hparam, hname⟩ : sig.ResultMentions
          (fun i => position ≤ i ∧ i < position + (.lambda names body place :: args).length) name)
      have hrest := ih (hobserved.wellFormed hσ) hrest
      exact hhere.trans (hrest.mono fun name => Signature.ResultMentions.mono hlater)

/-! ### Calls -/

/-- A call was accepted: there is a function of this name that takes as many arguments, and the two
rounds over them ended with `σ₀` and with `σ`. -/
structure Binds (library : Library) (scope : Scope) (name : String) (args : List Expr)
    (location : Option Location) (sig : Signature) (σ₀ σ : Assignment) : Prop where
  found : library.find? name = some sig
  count : sig.acceptsCount args.length = true
  plain : bindPlain library scope sig args.length location 0 [] args = .ok σ₀
  lambdas : bindLambdas library scope sig location 0 σ₀ args = .ok σ

/-- The type of a call is the declared result under the assignment that its arguments lead to. -/
theorem infer_call_eq_ok_iff : infer library scope (.call name args location) = .ok t ↔
    ∃ sig σ₀ σ, Binds library scope name args location sig σ₀ σ ∧ t = sig.result.ground σ := by
  rw [infer]
  constructor
  · intro h
    split at h
    · cases h
    · rename_i sig hfound
      split at h
      · rename_i hcount
        obtain ⟨σ₀, hplain, h⟩ := bind_eq_ok_iff.mp h
        obtain ⟨σ, hlambdas, h⟩ := bind_eq_ok_iff.mp h
        exact ⟨sig, σ₀, σ, ⟨hfound, hcount, hplain, hlambdas⟩, (Except.ok.inj h).symm⟩
      · cases h
  · rintro ⟨sig, σ₀, σ, ⟨hfound, hcount, hplain, hlambdas⟩, rfl⟩
    simp only [hfound, hcount, if_true, hplain, bind, Except.bind, hlambdas]
    rfl

theorem exists_append_of_getElem? (h : args[i]? = some arg) :
    ∃ before after, args = before ++ arg :: after ∧ before.length = i := by
  obtain ⟨hi, rfl⟩ := List.getElem?_eq_some_iff.mp h
  refine ⟨args.take i, args.drop (i + 1), ?_, ?_⟩
  · simp
  · simp
    omega

namespace Binds

variable {σ₀ : Assignment}

theorem wellFormed_param (hlibrary : library.AllDeclared WellFormed)
    (hbinds : Binds library scope name args location sig σ₀ σ)
    (hparam : sig.paramAt? i = some param) : param.WellFormed :=
  (hlibrary name sig hbinds.found).1 param (sig.mem_params_of_paramAt? hparam)

/-- An invariant of inference holds of what the variables stand for after either round. -/
theorem all_good {Good Declared : Ty → Prop} (inv : InferenceInvariant Good Declared)
    (hlibrary : library.AllDeclared Declared) (hscope : scope.AllBound Good)
    (hbinds : Binds library scope name args location sig σ₀ σ) :
    Entries.All Good σ₀ ∧ Entries.All Good σ := by
  obtain ⟨hparams, _⟩ := hlibrary name sig hbinds.found
  have hplain : Entries.All Good σ₀ :=
    (inv.bindPlain hparams (fun _ _ => inv.infer hlibrary hscope) .nil).of_eq_ok hbinds.plain
  have hlambdas : Entries.All Good σ :=
    (inv.bindLambdas hparams (fun _ _ _ _ _ => inv.infer hlibrary) hscope hplain).of_eq_ok
      hbinds.lambdas
  exact ⟨hplain, hlambdas⟩

variable (hlibrary : library.AllDeclared WellFormed) (hscope : scope.AllBound WellFormed)
  (hbinds : Binds library scope name args location sig σ₀ σ)
include hlibrary hscope hbinds

theorem lambdas_observations : Observations (sig.ResultMentions fun _ => True) σ₀ σ := by
  obtain ⟨hparams, _⟩ := hlibrary name sig hbinds.found
  obtain ⟨hσ₀, _⟩ := hbinds.all_good wellFormed_invariant hlibrary hscope
  have hobserved := bindLambdas_observations hlibrary hscope hparams hσ₀ hbinds.lambdas
  exact hobserved.mono fun _ => .mono fun _ _ => trivial

/-- The second round leaves out the positions of parameters that take no functions. -/
theorem lambdas_observations_of_not_isFunction (hparam : sig.paramAt? i = some param)
    (hfunction : param.isFunction = false) : Observations (sig.Mentions (· ≠ i)) σ₀ σ := by
  refine (hbinds.lambdas_observations hlibrary hscope).mono fun name => ?_
  rintro ⟨j, params, result, _, hj, hname⟩
  refine ⟨j, _, ?_, hj, List.mem_append_right _ hname⟩
  rintro rfl
  obtain rfl := Option.some.inj (hparam.symm.trans hj)
  cases hfunction

/-- The first round, cut at an argument: `σ₁` is known when its turn comes and `σ₂` after it. A function
written in place is passed over. -/
theorem plain_cut (harg : args[i]? = some arg) :
    ∃ param σ₁ σ₂, sig.paramAt? i = some param ∧
      Observations (sig.Mentions (· ≠ i)) [] σ₁ ∧ Observations (sig.Mentions (· ≠ i)) σ₂ σ₀ ∧
      (((arg.isLambda && param.isFunction) = true ∧ σ₂ = σ₁) ∨
        ((arg.isLambda && param.isFunction) = false ∧ ∃ actual,
          infer library scope arg = .ok actual ∧
          checkArgument sig i param actual σ₁ location = .ok σ₂)) := by
  obtain ⟨before, after, rfl, rfl⟩ := exists_append_of_getElem? harg
  have hround : ∀ {position σ σ' args}, position + args.length ≤ before.length ∨
      before.length < position → bindPlain library scope sig (before ++ arg :: after).length location
        position σ args = .ok σ' → Observations (sig.Mentions (· ≠ before.length)) σ σ' := by
    intro position σ σ' args hrange h
    have hinfer : ∀ arg t, infer library scope arg = .ok t → t.WellFormed :=
      fun arg t ht => (wellFormed_invariant.infer hlibrary hscope).of_eq_ok ht
    refine (bindPlain_observations hinfer h).mono fun _ => .mono fun i hi => ?_
    omega
  have hplain := hbinds.plain
  rw [bindPlain_append, bind_eq_ok_iff, Nat.zero_add] at hplain
  obtain ⟨σ₁, hbefore, hrest⟩ := hplain
  have hbefore := hround (by omega) hbefore
  obtain ⟨param, hparam, ⟨hlater, hafter⟩ | ⟨hnow, actual, σ₂, hactual, hcheck, hafter⟩⟩ :=
    bindPlain_cons_eq_ok hrest
  · exact ⟨param, σ₁, σ₁, hparam, hbefore, hround (by omega) hafter, Or.inl ⟨hlater, rfl⟩⟩
  · exact ⟨param, σ₁, σ₂, hparam, hbefore, hround (by omega) hafter,
      Or.inr ⟨hnow, actual, hactual, hcheck⟩⟩

/-- The second round, cut at a function written in place. -/
theorem lambda_cut {names : List String} {body : Expr} {place : Option Location} {params : List Ty}
    {result : Ty} (harg : args[i]? = some (.lambda names body place))
    (hparam : sig.paramAt? i = some (.function params result)) :
    ∃ actual σ₁ σ₂, Observations (sig.ResultMentions (· ≠ i)) σ₀ σ₁ ∧
      infer library (scope.enterAll names (params.map fun p => p.ground σ₁)) body = .ok actual ∧
      checkArgument sig i result actual σ₁ location = .ok σ₂ ∧
      Observations (sig.ResultMentions (· ≠ i)) σ₂ σ := by
  obtain ⟨hparams, _⟩ := hlibrary name sig hbinds.found
  obtain ⟨hσ₀, _⟩ := hbinds.all_good wellFormed_invariant hlibrary hscope
  obtain ⟨before, after, rfl, rfl⟩ := exists_append_of_getElem? harg
  have hlambdas := hbinds.lambdas
  rw [bindLambdas_append, bind_eq_ok_iff, Nat.zero_add] at hlambdas
  obtain ⟨σ₁, hbefore, hrest⟩ := hlambdas
  obtain ⟨actual, σ₂, hactual, hcheck, hafter⟩ := bindLambdas_lambda_eq_ok hparam hrest
  have hbefore := bindLambdas_observations hlibrary hscope hparams hσ₀ hbefore
  have hσ₁ := hbefore.wellFormed hσ₀
  have hwf := wellFormed_body hlibrary hscope (hbinds.wellFormed_param hlibrary hparam) hσ₁ hactual
  have hσ₂ := (checkArgument_observations hwf hcheck).wellFormed hσ₁
  have hafter := bindLambdas_observations hlibrary hscope hparams hσ₂ hafter
  refine ⟨actual, σ₁, σ₂, ?_, hactual, hcheck, ?_⟩
  · exact hbefore.mono fun _ => .mono fun i hi => by omega
  · exact hafter.mono fun _ => .mono fun i hi => by omega

end Binds

end Typing

/-! ### The standard library -/

namespace Library

variable {name : String} {sig : Signature} {signatures : List Signature}

theorem mem_of_find?_ofSignatures (h : (ofSignatures signatures).find? name = some sig) :
    sig ∈ signatures ∧ sig.name = name := by
  have hentries : (ofSignatures signatures).signatures =
      Entries.ofList (signatures.map fun sig => (sig.name, sig)) := by
    rw [Entries.ofList, List.foldl_map]
    rfl
  have hmem := Entries.mem_of_lookup h
  rw [hentries] at hmem
  obtain ⟨declared, hdeclared, heq⟩ := List.mem_map.mp (Entries.mem_of_mem_ofList hmem)
  obtain ⟨hname, rfl⟩ := Prod.mk.inj heq
  exact ⟨hdeclared, hname⟩

def standardSignatures : List Signature :=
  textFunctions ++ numberFunctions ++ arrayFunctions ++ objectFunctions ++ valueFunctions

theorem mem_of_find?_standard (h : standard.find? name = some sig) :
    sig ∈ standardSignatures ∧ sig.name = name :=
  mem_of_find?_ofSignatures h

theorem wellFormed_standard : standard.AllDeclared Ty.WellFormed := by
  have hall : ∀ sig ∈ standardSignatures,
      (∀ p ∈ sig.params, p.WellFormed) ∧ sig.result.WellFormed := by
    decide
  intro name sig h
  exact hall sig (mem_of_find?_standard h).1

end Library

end SchemaInfer
