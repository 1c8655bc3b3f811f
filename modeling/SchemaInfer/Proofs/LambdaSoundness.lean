import SchemaInfer.Proofs.ArgumentSoundness

/-!
# Functions written in place

The body of a function written in place is inferred once, for the parameter types that the other
arguments lead to, and its type is matched with the declared result of the function. In the end the
declared result covers the type of the body. The parameters have the types by then that the body was
inferred for, unless the result widened one of them. Only `reduce` can do that, since its accumulator is
both a parameter and the result: inferring the body again is only certain to give the same type if the
type of the body was covered by the initial accumulator.
-/

namespace SchemaInfer

namespace Ty

variable {actual result s : Ty} {name : String} {σ₀ σ : Assignment}

/-! ### Matching the type of a body -/

/-- The forms that the results of functions have: types without parts, variables, and arrays of a
variable that nothing else binds. -/
def IsLambdaResult (σ₀ : Assignment) (result : Ty) : Prop :=
  result.isPrimitive = true ∨ result.isVar = true ∨
    (result.isVarArray = true ∧ ∀ name ∈ result.vars, σ₀.lookup name = none)

theorem fits_result_ground (hresult : result.IsLambdaResult σ₀) (hactual : actual.WellFormed)
    (hclosed : actual.Closed) (hσ₀ : Entries.All WellFormed σ₀) (hσ : Entries.All Closed σ)
    (haccept : result.accept actual σ₀ = .ok σ) (hany : actual.isAny = false) :
    Fits actual (result.ground σ) := by
  rcases hresult with hprimitive | hvar | ⟨hvarArray, hfresh⟩
  · have hfit : result.fit actual σ₀ = .ok σ := by
      cases result with
      | string | number | integer | boolean | null | any => exact haccept
      | _ => cases hprimitive
    exact fits_ground_of_fit (.of_isPrimitive hprimitive) hactual hσ₀ hany hfit
  · cases result with
    | var name =>
      obtain ⟨s, hs, hcovers⟩ := accept_var_covers hactual hσ₀ haccept
      rw [ground_var hs (hσ.lookup hs)]
      exact hcovers hany
    | _ => cases hvar
  · obtain ⟨name, rfl⟩ := isVarArray_iff.mp hvarArray
    have hwf : (array (var name)).WellFormed := WellFormed.array_iff.mpr .var
    cases actual with
    | array element =>
      -- the variable is bound here, so it stands for the elements themselves
      have hnone : σ₀.lookup name = none := hfresh name (List.mem_singleton_self name)
      have hbound : σ = Entries.insert name element σ₀ := by
        rcases accept_var_cases haccept with ⟨_, heq⟩ | ⟨_, _, hsome, _⟩
        · exact heq
        · rw [hnone] at hsome
          cases hsome
      have hlookup : σ.lookup name = some element := by
        rw [hbound, Entries.lookup_insert_self]
      rw [ground_array, ground_var hlookup (Closed.array_iff.mp hclosed)]
      exact .refl hactual
    | any => cases hany
    | _ => exact fits_ground_of_fit hwf hactual hσ₀ hany haccept

/-- A type that the variable covers already changes nothing. -/
theorem lookup_eq_of_covered (hbound : σ₀.lookup name = some s)
    (hcovered : actual.isAny = true ∨ actual.subtypeOf s = true)
    (haccept : (var name).accept actual σ₀ = .ok σ) (other : String) :
    σ.lookup other = σ₀.lookup other := by
  rcases accept_var_cases haccept with ⟨hnone, _⟩ | ⟨bound, refined, hbound', hrefined, rfl⟩
  · rw [hbound] at hnone
    cases hnone
  · obtain rfl : s = bound := Option.some.inj (hbound.symm.trans hbound')
    obtain rfl : s = refined := Option.some.inj ((refine?_of_covered hcovered).symm.trans hrefined)
    by_cases hother : other = name
    · rw [hother, Entries.lookup_insert_self, hbound]
    · rw [Entries.lookup_insert_of_ne hother]

end Ty

/-! ### Signatures with one function -/

def Ty.function? : Ty → Option (List Ty × Ty)
  | .function params result => some (params, result)
  | _ => none

/-- A parameter takes a function, and no other parameter of the signature does. -/
structure Signature.TakesOnly (sig : Signature) (i : Nat) (params : List Ty) (result : Ty) : Prop where
  param : sig.paramAt? i = some (.function params result)
  unique : ∀ j params' result', sig.paramAt? j = some (.function params' result') → j = i

theorem Signature.TakesOnly.not_resultMentions {sig : Signature} {i : Nat} {params : List Ty}
    {result : Ty} (h : sig.TakesOnly i params result) (name : String) :
    ¬ sig.ResultMentions (· ≠ i) name := by
  rintro ⟨j, params', result', hj, hparam, _⟩
  exact hj (h.unique j params' result' hparam)

namespace Typing

open Ty (WellFormed Closed Fits)

variable {library : Library} {scope : Scope} {sig : Signature} {location place : Option Location}
  {name : String} {arg body : Expr} {args : List Expr} {names : List String} {i : Nat}
  {params : List Ty} {param result t : Ty} {σ₀ σ : Assignment}

/-- A function written in place that is the only function of its call is all that the second round looks
at. -/
theorem Binds.lambda_of_takesOnly (hlibrary : library.AllDeclared WellFormed)
    (hscope : scope.AllBound WellFormed) (hbinds : Binds library scope name args location sig σ₀ σ)
    (harg : args[i]? = some (.lambda names body place)) (honly : sig.TakesOnly i params result) :
    ∃ actual,
      infer library (scope.enterAll names (params.map fun p => p.ground σ₀)) body = .ok actual ∧
      result.accept actual σ₀ = .ok σ := by
  obtain ⟨actual, σ₁, σ₂, hbefore, hactual, hcheck, hafter⟩ :=
    hbinds.lambda_cut hlibrary hscope harg honly.param
  obtain rfl : σ₁ = σ₀ := hbefore.eq_of_forall_not honly.not_resultMentions
  obtain rfl : σ = σ₂ := hafter.eq_of_forall_not honly.not_resultMentions
  exact ⟨actual, hactual, (checkArgument_eq_ok hcheck).1⟩

/-- A variable that is a parameter of its own stands for something after the first round. -/
theorem Binds.exists_bound (hlibrary : library.AllDeclared WellFormed)
    (hscope : scope.AllBound WellFormed) (hbinds : Binds library scope name args location sig σ₀ σ)
    {bound : String} (harg : args[i]? = some arg) (hparam : sig.paramAt? i = some (.var bound)) :
    ∃ s, σ₀.lookup bound = some s := by
  obtain ⟨param, σ₁, σ₂, hparam', hbefore, hafter, hcases⟩ := hbinds.plain_cut hlibrary hscope harg
  obtain rfl := Option.some.inj (hparam.symm.trans hparam')
  have hnow : (arg.isLambda && (Ty.var bound).isFunction) = false := Bool.and_false _
  rw [hnow] at hcases
  obtain ⟨actual, hactual, hcheck⟩ := (hcases.resolve_left fun h => Bool.noConfusion h.1).2
  have hwf : actual.WellFormed := (wellFormed_invariant.infer hlibrary hscope).of_eq_ok hactual
  have hσ₁ : Entries.All WellFormed σ₁ := hbefore.wellFormed .nil
  obtain ⟨s, hs, _⟩ := Ty.accept_var_covers hwf hσ₁ (checkArgument_eq_ok hcheck).1
  obtain ⟨u, hu, _⟩ :=
    hafter.exists_wider ((checkArgument_observations hwf hcheck).wellFormed hσ₁) hs
  exact ⟨u, hu⟩

/-- A variable of no other parameter is not bound when the second round comes to a function. -/
theorem Binds.lookup_eq_none (hlibrary : library.AllDeclared WellFormed)
    (hscope : scope.AllBound WellFormed) (hbinds : Binds library scope name args location sig σ₀ σ)
    {free : String} (harg : args[i]? = some (.lambda names body place))
    (hparam : sig.paramAt? i = some (.function params result))
    (hfree : ¬ sig.Mentions (· ≠ i) free) : σ₀.lookup free = none := by
  obtain ⟨param, σ₁, σ₂, hparam', hbefore, hafter, hcases⟩ := hbinds.plain_cut hlibrary hscope harg
  obtain rfl := Option.some.inj (hparam.symm.trans hparam')
  obtain ⟨_, rfl⟩ := hcases.resolve_right fun h => Bool.noConfusion h.1
  rw [hafter.lookup_eq hfree, hbefore.lookup_eq hfree]
  rfl

theorem ground_eq_of_disjoint {actual : Ty} (hactual : actual.WellFormed)
    (haccept : result.accept actual σ₀ = .ok σ) (hdisjoint : ∀ name ∈ param.vars, name ∉ result.vars) :
    param.ground σ = param.ground σ₀ :=
  Ty.ground_congr fun name hname =>
    (Ty.accept_observations hactual haccept).lookup_eq (hdisjoint name hname)

/-! ### The standard library -/

/-- A function of the standard library takes one function at most. The result of that is of a form that
covers the type of a body, and shares no variable with the parameters, except for `reduce`. -/
theorem takesOnly_standard (hsig : sig ∈ Library.standardSignatures)
    (hparam : sig.paramAt? i = some (.function params result)) :
    sig.TakesOnly i params result ∧
      (result.isPrimitive = true ∨ result.isVar = true ∨
        (result.isVarArray = true ∧ ∀ name ∈ result.vars, ¬ sig.Mentions (· ≠ i) name)) ∧
      (sig.name = "reduce" ∨ ∀ p ∈ params, ∀ name ∈ p.vars, name ∉ result.vars) := by
  have hvariadic : ∀ sig ∈ Library.standardSignatures, sig.takesFunction = true →
      sig.variadic = false := by
    decide
  have htable : ∀ sig ∈ Library.standardSignatures, ∀ entry ∈ sig.params.zipIdx,
      ∀ f ∈ entry.1.function?, (∀ q ∈ sig.params.eraseIdx entry.2, q.isFunction = false) ∧
        (f.2.isPrimitive = true ∨ f.2.isVar = true ∨ (f.2.isVarArray = true ∧
          ∀ q ∈ sig.params.eraseIdx entry.2, ∀ name ∈ f.2.vars, name ∉ q.vars)) ∧
        (sig.name = "reduce" ∨ ∀ p ∈ f.1, ∀ name ∈ p.vars, name ∉ f.2.vars) := by
    decide
  have htakes : sig.takesFunction = true :=
    List.any_eq_true.mpr ⟨_, sig.mem_params_of_paramAt? hparam, rfl⟩
  have hvariadic := hvariadic sig hsig htakes
  have hother : ∀ {j q}, j ≠ i → sig.paramAt? j = some q → q ∈ sig.params.eraseIdx i :=
    fun hj hq => sig.mem_eraseIdx_of_paramAt? hvariadic hj hq
  obtain ⟨halone, hshape, hdisjoint⟩ := htable sig hsig (.function params result, i)
    (List.mem_zipIdx_iff_getElem?.mpr (sig.getElem?_of_paramAt? hvariadic hparam)) (params, result) rfl
  refine ⟨⟨hparam, fun j params' result' hj => ?_⟩, ?_, hdisjoint⟩
  · by_contra hne
    cases halone _ (hother hne hj)
  · refine hshape.imp_right (Or.imp_right (And.imp_right fun hfresh name hname => ?_))
    rintro ⟨j, q, hj, hq, hmem⟩
    exact hfresh q (hother hj hq) name hname hmem

theorem find?_reduce : Library.standard.find? "reduce" =
    some ((Signature.fixed "reduce" [.array (.var "T"), .function [.var "R", .var "T"] (.var "R"),
      .var "R"] (.var "R")).describedAs "Fold with an initial accumulator") := rfl

/-- What is special about `reduce`: its accumulator is a parameter and the result of the function, and
the initial one is an argument. -/
theorem reduce_cases (hscope : scope.AllBound WellFormed)
    (hbinds : Binds Library.standard scope "reduce" args location sig σ₀ σ)
    (hparam : sig.paramAt? i = some (.function params result)) :
    params = [.var "R", .var "T"] ∧ result = .var "R" ∧ ∃ s, σ₀.lookup "R" = some s := by
  obtain ⟨hsig, _⟩ := Library.mem_of_find?_standard hbinds.found
  obtain ⟨honly, _⟩ := takesOnly_standard hsig hparam
  obtain rfl := Option.some.inj (find?_reduce.symm.trans hbinds.found)
  obtain rfl := honly.unique 1 _ _ rfl
  obtain ⟨rfl, rfl⟩ := Ty.function.inj (Option.some.inj hparam)
  have hlength : args.length = 3 := by
    have hcount := hbinds.count
    simp [Signature.acceptsCount, Signature.fixed, Signature.describedAs] at hcount
    omega
  have hinitial : args[2]? = some args[2] := List.getElem?_eq_getElem (by omega)
  exact ⟨rfl, rfl, hbinds.exists_bound Library.wellFormed_standard hscope hinitial rfl⟩

/-- The types of the parameters when the body is inferred, and in the end: they only grow, and they stay
as they are unless the body widens the accumulator of `reduce`. -/
theorem params_ground_cases (hscope : scope.AllBound WellFormed) (hclosed : scope.AllBound Closed)
    (hbinds : Binds Library.standard scope name args location sig σ₀ σ)
    (hparam : sig.paramAt? i = some (.function params result)) {actual : Ty}
    (hactual : actual.WellFormed) (haccept : result.accept actual σ₀ = .ok σ) :
    (∀ p ∈ params, Fits (p.ground σ₀) (p.ground σ)) ∧
      (name ≠ "reduce" ∨ actual = .any ∨ actual.subtypeOf (result.ground σ₀) = true →
        ∀ p ∈ params, p.ground σ = p.ground σ₀) := by
  have hlibrary := Library.wellFormed_standard
  obtain ⟨hsig, hname⟩ := Library.mem_of_find?_standard hbinds.found
  obtain ⟨_, _, hdisjoint⟩ := takesOnly_standard hsig hparam
  obtain ⟨hσ₀, _⟩ := hbinds.all_good wellFormed_invariant hlibrary hscope
  have hparamwf := hbinds.wellFormed_param hlibrary hparam
  have hrefl : ∀ p ∈ params, Fits (p.ground σ₀) (p.ground σ₀) := fun p hp =>
    .refl (Ty.wellFormed_ground ((WellFormed.function_iff.mp hparamwf).1 p hp) hσ₀)
  by_cases hreduce : name = "reduce"
  · subst hreduce
    obtain ⟨hσ₀closed, hσclosed⟩ := hbinds.all_good closed_invariant (Library.allDeclared_true _) hclosed
    obtain ⟨rfl, rfl, s, hs⟩ := reduce_cases hscope hbinds hparam
    have hobserved := Ty.accept_observations hactual haccept
    constructor
    · obtain ⟨u, hu, hsu⟩ := hobserved.exists_wider hσ₀ hs
      have hT : (Ty.var "T").ground σ = (Ty.var "T").ground σ₀ :=
        ground_eq_of_disjoint hactual haccept (by decide)
      refine Ty.forall_mem_pair.mpr ⟨?_, ?_⟩
      · rw [Ty.ground_var hs (hσ₀closed.lookup hs), Ty.ground_var hu (hσclosed.lookup hu)]
        exact hsu
      · rw [hT]
        exact hrefl _ (by simp)
    · -- a covered type leaves the accumulator, and with it the whole assignment, as it was
      intro hcovered p _
      rw [Ty.ground_var hs (hσ₀closed.lookup hs)] at hcovered
      refine Ty.ground_congr fun other _ => Ty.lookup_eq_of_covered hs ?_ haccept other
      rcases hcovered with hne | rfl | hsub
      · exact absurd rfl hne
      · exact Or.inl rfl
      · exact Or.inr hsub
  · have hsame : ∀ p ∈ params, p.ground σ = p.ground σ₀ := fun p hp =>
      ground_eq_of_disjoint hactual haccept
        (hdisjoint.resolve_left (fun h => hreduce (hname ▸ h)) p hp)
    exact ⟨fun p hp => hsame p hp ▸ hrefl p hp, fun _ => hsame⟩

theorem body_fits_result (hscope : scope.AllBound WellFormed) (hclosed : scope.AllBound Closed)
    (hbinds : Binds Library.standard scope name args location sig σ₀ σ)
    (harg : args[i]? = some (.lambda names body place))
    (hparam : sig.paramAt? i = some (.function params result)) {actual : Ty}
    (hbody : infer Library.standard (scope.enterAll names (params.map fun p => p.ground σ₀)) body =
      .ok actual)
    (hactual : actual.WellFormed) (haccept : result.accept actual σ₀ = .ok σ)
    (hany : actual.isAny = false) : Fits actual (result.ground σ) := by
  have hlibrary := Library.wellFormed_standard
  have hlibrary' := Library.allDeclared_true Library.standard
  obtain ⟨hsig, _⟩ := Library.mem_of_find?_standard hbinds.found
  obtain ⟨_, hshape, _⟩ := takesOnly_standard hsig hparam
  have hresult : result.IsLambdaResult σ₀ := by
    refine hshape.imp_right (Or.imp_right (And.imp_right fun hfresh name hname => ?_))
    exact hbinds.lookup_eq_none hlibrary hscope harg hparam (hfresh name hname)
  have hinner : (scope.enterAll names (params.map fun p => p.ground σ₀)).AllBound Closed :=
    closed_invariant.enterAll names
      (List.forall_mem_map.mpr fun p _ => Ty.closed_ground σ₀ p) hclosed
  have hactual' : actual.Closed := (closed_invariant.infer hlibrary' hinner).of_eq_ok hbody
  obtain ⟨hσ₀, _⟩ := hbinds.all_good wellFormed_invariant hlibrary hscope
  obtain ⟨_, hσ⟩ := hbinds.all_good closed_invariant hlibrary' hclosed
  exact Ty.fits_result_ground hresult hactual hactual' hσ₀ hσ haccept hany

/-- **Functions written in place fit their parameters.** When a call of the standard library is accepted,
the body of each function written in place has a type for the parameter types known after the first
round, and the declared result covers it in the end. The types of the parameters only grow. The body has
the same type for their final types, except perhaps in `reduce` when the type of the body goes beyond
that of the accumulator. -/
theorem lambda_body_subtypeOf_result (hscope : scope.AllBound WellFormed)
    (hclosed : scope.AllBound Closed)
    (hcall : infer Library.standard scope (.call name args location) = .ok t) :
    ∃ sig σ₀ σ, Binds Library.standard scope name args location sig σ₀ σ ∧
      t = sig.result.ground σ ∧
      ∀ i names body place params result, args[i]? = some (.lambda names body place) →
        sig.paramAt? i = some (.function params result) →
        ∃ actual, infer Library.standard
            (scope.enterAll names (params.map fun p => p.ground σ₀)) body = .ok actual ∧
          (actual = .any ∨ actual.subtypeOf (result.ground σ) = true) ∧
          (∀ p ∈ params, (p.ground σ₀).subtypeOf (p.ground σ) = true) ∧
          (name ≠ "reduce" ∨ actual = .any ∨ actual.subtypeOf (result.ground σ₀) = true →
            infer Library.standard
              (scope.enterAll names (params.map fun p => p.ground σ)) body = .ok actual) := by
  have hlibrary := Library.wellFormed_standard
  obtain ⟨sig, σ₀, σ, hbinds, ht⟩ := infer_call_eq_ok_iff.mp hcall
  refine ⟨sig, σ₀, σ, hbinds, ht, ?_⟩
  intro i names body place params result harg hparam
  obtain ⟨hsig, _⟩ := Library.mem_of_find?_standard hbinds.found
  obtain ⟨honly, _⟩ := takesOnly_standard hsig hparam
  obtain ⟨actual, hbody, haccept⟩ := hbinds.lambda_of_takesOnly hlibrary hscope harg honly
  obtain ⟨hσ₀, hσ⟩ := hbinds.all_good wellFormed_invariant hlibrary hscope
  have hparamwf := hbinds.wellFormed_param hlibrary hparam
  obtain ⟨hparamswf, hresultwf⟩ := WellFormed.function_iff.mp hparamwf
  have hactual : actual.WellFormed := wellFormed_body hlibrary hscope hparamwf hσ₀ hbody
  obtain ⟨hgrow, hsame⟩ := params_ground_cases hscope hclosed hbinds hparam hactual haccept
  refine ⟨actual, hbody, ?_, fun p hp => ?_, fun hcovered => ?_⟩
  · by_cases hany : actual.isAny = true
    · exact Or.inl (Ty.eq_any_of_isAny hany)
    · have hfits := body_fits_result hscope hclosed hbinds harg hparam hbody hactual haccept
        (Bool.eq_false_iff.mpr hany)
      exact Or.inr (Ty.subtypeOf_of_fits hactual (Ty.wellFormed_ground hresultwf hσ) hfits)
  · have hp' := hparamswf p hp
    exact Ty.subtypeOf_of_fits (Ty.wellFormed_ground hp' hσ₀) (Ty.wellFormed_ground hp' hσ)
      (hgrow p hp)
  · rw [List.map_congr_left (hsame hcovered)]
    exact hbody

/-- A sum of integers: the body gives an integer for an accumulator that is one. -/
theorem lambda_body_subtypeOf_result_of_sum :
    let scope : Scope := Scope.empty.bind "xs" (.array .integer)
    let body : Expr := .binary .add (.path "acc" none) (.path "x" none) none
    let args : List Expr :=
      [.path "xs" none, .lambda ["acc", "x"] body none, .literal (.integer 0) none]
    infer Library.standard scope (.call "reduce" args none) = .ok .integer ∧
      ∃ sig σ₀ σ, Binds Library.standard scope "reduce" args none sig σ₀ σ ∧
        infer Library.standard (scope.enterAll ["acc", "x"]
          ([.var "R", .var "T"].map fun p => Ty.ground σ p)) body = .ok .integer := by
  intro scope body args
  have hcall : infer Library.standard scope (.call "reduce" args none) = .ok .integer := by
    with_unfolding_all rfl
  have hplain : ∀ sig, Library.standard.find? "reduce" = some sig →
      bindPlain Library.standard scope sig args.length none 0 [] args =
        .ok [("T", .integer), ("R", .integer)] := by
    intro sig hsig
    obtain rfl := Option.some.inj hsig
    with_unfolding_all rfl
  obtain ⟨sig, σ₀, σ, hbinds, _, hlambdas⟩ :=
    lambda_body_subtypeOf_result (by decide) (by decide) hcall
  obtain rfl := Except.ok.inj ((hplain sig hbinds.found).symm.trans hbinds.plain)
  obtain rfl := Option.some.inj hbinds.found
  obtain ⟨actual, hbody, _, _, hagain⟩ :=
    hlambdas 1 ["acc", "x"] body none [.var "R", .var "T"] (.var "R") rfl rfl
  obtain rfl : .integer = actual := Except.ok.inj (Eq.trans (by with_unfolding_all rfl) hbody)
  exact ⟨hcall, _, _, σ, hbinds, hagain (Or.inr (Or.inr (by decide +kernel)))⟩

/-- The body gives null for some elements, which makes the accumulator nullable in the end, and then it
may no longer be added to. -/
theorem reduce_body_not_inferred_again :
    let scope : Scope := Scope.empty.bind "xs" (.array .integer)
    let body : Expr := .conditional
      (.binary .greater (.path "x" none) (.literal (.integer 0) none) none)
      (.binary .add (.path "acc" none) (.path "x" none) none) (.literal .null none) none
    let args : List Expr :=
      [.path "xs" none, .lambda ["acc", "x"] body none, .literal (.integer 0) none]
    ∃ sig σ₀ σ, Binds Library.standard scope "reduce" args none sig σ₀ σ ∧
      scope.AllBound WellFormed ∧ scope.AllBound Closed ∧
      infer Library.standard scope (.call "reduce" args none) = .ok (.union [.integer, .null]) ∧
      sig.paramAt? 1 = some (.function [.var "R", .var "T"] (.var "R")) ∧
      infer Library.standard (scope.enterAll ["acc", "x"]
          ([.var "R", .var "T"].map fun p => Ty.ground σ p)) body =
        fail (.mismatch .number (.union [.integer, .null]) "left operand of +") none := by
  intro scope body args
  refine ⟨_, [("T", .integer), ("R", .integer)],
    [("T", .integer), ("R", .union [.integer, .null])], ⟨find?_reduce, rfl, ?_, ?_⟩,
    by decide, by decide, ?_, rfl, ?_⟩
  · with_unfolding_all rfl
  · with_unfolding_all rfl
  · with_unfolding_all rfl
  · with_unfolding_all rfl

end Typing

end SchemaInfer
