import SchemaInfer.Proofs.Calls

/-!
# Arguments of accepted calls fit their parameters

An argument is matched with its parameter when its turn comes, and the types of the variables may still
grow after that. The type of the call is computed from what the variables stand for in the end, so the
question is whether the argument fits its parameter then. It does where the parameter is a variable or an
array of a variable that the argument binds, since what a variable stands for only grows, and where the
match is the only one that can touch the variables of the parameter (`Signature.SettlesAt`). It does not
where a union is given for an array of a variable: no variable is bound then, and a later argument is
free to bind it to anything. In the standard library, `append` and `includes` are left open in this way.
-/

namespace SchemaInfer

namespace Ty

variable {a b t r : Ty} {ms ps : List Ty} {name : String}

/-! ### What fits a function, a variable, or an array of a variable -/

theorem not_fits_function (ha : a.Definite) (hwf : a.WellFormed) : ¬ Fits a (function ps r) := by
  intro h
  induction a with
  | function => cases ha.head.2
  | union ms ih =>
    obtain ⟨hlength, _, _, hms⟩ := WellFormed.union_iff.mp hwf
    obtain ⟨m, hm⟩ := List.exists_mem_of_length_pos (Nat.lt_of_lt_of_le Nat.zero_lt_two hlength)
    cases h with
    | unionLeft h => exact ih m hm ((Everywhere.union_iff.mp ha).2 m hm) (hms m hm) (h m hm)
  | _ => cases h

theorem not_fits_ground_function (ha : a.Definite) (hwf : a.WellFormed) {σ : Assignment} :
    ¬ Fits a ((function ps r).ground σ) := by
  simp only [ground, subst]
  split
  · exact not_fits_function ha hwf
  · exact not_fits_function ha hwf

theorem exists_mem_ne (h : (union ms).WellFormed) (t : Ty) : ∃ m ∈ ms, m ≠ t := by
  obtain ⟨hlength, _, hdistinct, hms⟩ := WellFormed.union_iff.mp h
  match ms, hlength with
  | m :: n :: rest, _ =>
    have hne : (m == n) = false := (List.pairwise_cons.mp hdistinct).1 n List.mem_cons_self
    by_cases hm : m = t
    · refine ⟨n, List.mem_cons_of_mem _ List.mem_cons_self, fun hn => ?_⟩
      rw [hm, hn, beq_refl (hm ▸ hms m List.mem_cons_self)] at hne
      cases hne
    · exact ⟨m, List.mem_cons_self, hm⟩

/-- If a single type other than a union fits, then no union does. -/
theorem eq_of_fits_of_unique (hunique : ∀ s, s.WellFormed → s.isUnion = false → Fits s b → s = t)
    (ha : a.WellFormed) (h : Fits a b) : a = t := by
  cases a with
  | union ms =>
    obtain ⟨_, hflat, _, hms⟩ := WellFormed.union_iff.mp ha
    obtain ⟨m, hm, hne⟩ := exists_mem_ne ha t
    have hfits : Fits m b := (fits_iff_alternatives ha).mp h m hm
    exact absurd (hunique m (hms m hm) (hflat m hm) hfits) hne
  | _ => exact hunique _ ha rfl h

theorem eq_var_of_fits (ha : a.WellFormed) (h : Fits a (var name)) : a = var name := by
  refine eq_of_fits_of_unique ?_ ha h
  intro s _ hflat hs
  cases hs with
  | var => rfl
  | unionLeft => cases hflat
  | primitive h => cases h

theorem eq_array_var_of_fits (ha : a.WellFormed) (h : Fits a (array (var name))) :
    a = array (var name) := by
  refine eq_of_fits_of_unique ?_ ha h
  intro s hswf hflat hs
  cases hs with
  | array helement => rw [eq_var_of_fits (WellFormed.array_iff.mp hswf) helement]
  | unionLeft => cases hflat
  | primitive h => cases h

theorem exists_array_of_fits (h : Fits a (array t)) (hflat : a.isUnion = false) :
    ∃ s, a = array s := by
  cases h with
  | array => exact ⟨_, rfl⟩
  | unionLeft => cases hflat
  | primitive h => cases h

end Ty

/-! ### When a match is final -/

def Ty.isVarArray (t : Ty) : Bool :=
  t.element?.any Ty.isVar

theorem Ty.isVarArray_iff {t : Ty} : t.isVarArray = true ↔ ∃ name, t = .array (.var name) := by
  constructor
  · intro h
    match t, h with
    | .array (.var name), _ => exact ⟨name, rfl⟩
  · rintro ⟨name, rfl⟩
    rfl

/-- What an argument fits when it is matched with a parameter, it fits in the end: no type without
functions fits the parameter at all, or the parameter has no variables, or it is a variable, or it is an
array of a variable and only arrays are taken for it, or no other parameter has variables. -/
def Signature.SettlesAt (sig : Signature) (i : Nat) (param : Ty) : Prop :=
  param.isFunction = true ∨ param.hasVar = false ∨ param.isVar = true ∨
    (param.isVarArray = true ∧ sig.takesFunction = true) ∨
    (sig.variadic = false ∧ ∀ q ∈ sig.params.eraseIdx i, q.hasVar = false)

instance {sig : Signature} {i : Nat} {param : Ty} : Decidable (sig.SettlesAt i param) :=
  inferInstanceAs (Decidable (_ ∨ _ ∨ _ ∨ _ ∨ _))

theorem Signature.not_mentions {sig : Signature} {i : Nat} (hvariadic : sig.variadic = false)
    (hothers : ∀ q ∈ sig.params.eraseIdx i, q.hasVar = false) (name : String) :
    ¬ sig.Mentions (· ≠ i) name := by
  rintro ⟨j, param, hj, hparam, hname⟩
  have hclosed := hothers param (sig.mem_eraseIdx_of_paramAt? hvariadic hj hparam)
  rw [Ty.vars_eq_nil (Ty.hasVar_eq_false_iff.mp hclosed)] at hname
  cases hname

namespace Typing

open Ty (WellFormed Fits Definite)

variable {library : Library} {scope : Scope} {sig : Signature} {location : Option Location}
  {name : String} {arg : Expr} {args : List Expr} {i : Nat} {param actual t : Ty}
  {σ₀ σ₁ σ₂ σ : Assignment}

/-- What was matched with a variable fits what the variable stands for later. -/
theorem fits_ground_of_accept_var {Allowed : String → Prop} (hactual : actual.WellFormed)
    (hσ₁ : Entries.All WellFormed σ₁) (hdefinite : actual.Definite)
    (haccept : (Ty.var name).accept actual σ₁ = .ok σ₂) (hlater : Observations Allowed σ₂ σ) :
    Fits actual ((Ty.var name).ground σ) := by
  have hσ₂ := (Ty.accept_observations hactual haccept).wellFormed hσ₁
  obtain ⟨s, hs, hcovers⟩ := Ty.accept_var_covers hactual hσ₁ haccept
  obtain ⟨u, hu, hsu⟩ := hlater.exists_wider hσ₂ hs
  exact Ty.fits_ground_var (hlater.wellFormed hσ₂) hdefinite hu
    ((hcovers hdefinite.head.1).trans hsu)

/-- An array of a variable takes arrays only, from a function that takes functions or if it is given no
union. -/
theorem exists_array_of_checkArgument (hactual : actual.WellFormed)
    (hσ₁ : Entries.All WellFormed σ₁) (hdefinite : actual.Definite)
    (hcheck : checkArgument sig i (.array (.var name)) actual σ₁ location = .ok σ₂)
    (h : sig.takesFunction = true ∨ actual.isUnion = false) : ∃ s, actual = .array s := by
  have hparam : (Ty.array (.var name)).WellFormed := WellFormed.array_iff.mpr .var
  obtain ⟨haccept, hguard⟩ := checkArgument_eq_ok hcheck
  rcases h with htakes | hflat
  · rcases hguard rfl htakes with harray | hany | hsub
    · cases actual with
      | array s => exact ⟨s, rfl⟩
      | _ => cases harray
    · rw [hdefinite.head.1] at hany
      cases hany
    · exact ⟨_, Ty.eq_array_var_of_fits hactual (Ty.fits_of_subtypeOf hactual hparam hsub)⟩
  · have hfits := Ty.accept_fits_ground hparam hactual hσ₁ hdefinite haccept
    rw [Ty.ground_array] at hfits
    exact Ty.exists_array_of_fits hfits hflat

theorem fits_ground_of_varArray {Allowed : String → Prop} (hvarArray : param.isVarArray = true)
    (hactual : actual.WellFormed) (hσ₁ : Entries.All WellFormed σ₁) (hdefinite : actual.Definite)
    (hcheck : checkArgument sig i param actual σ₁ location = .ok σ₂)
    (h : sig.takesFunction = true ∨ actual.isUnion = false) (hlater : Observations Allowed σ₂ σ) :
    Fits actual (param.ground σ) := by
  obtain ⟨element, rfl⟩ := Ty.isVarArray_iff.mp hvarArray
  obtain ⟨s, rfl⟩ := exists_array_of_checkArgument hactual hσ₁ hdefinite hcheck h
  have haccept : (Ty.var element).accept s σ₁ = .ok σ₂ := (checkArgument_eq_ok hcheck).1
  rw [Ty.ground_array]
  exact .array (fits_ground_of_accept_var (WellFormed.array_iff.mp hactual) hσ₁
    (Ty.Everywhere.array_iff.mp hdefinite).2 haccept hlater)

/-- An argument fits its parameter in the end, if its match is final or if it is no union. -/
theorem argument_fits (hlibrary : library.AllDeclared WellFormed)
    (hscope : scope.AllBound WellFormed) (hbinds : Binds library scope name args location sig σ₀ σ)
    (harg : args[i]? = some arg) (hlambda : arg.isLambda = false)
    (hactual : infer library scope arg = .ok actual) (hdefinite : actual.Definite)
    (hparam : sig.paramAt? i = some param)
    (hsettles : sig.SettlesAt i param ∨ (param.isVarArray = true ∧ actual.isUnion = false)) :
    Fits actual (param.ground σ) := by
  have hwf : actual.WellFormed := (wellFormed_invariant.infer hlibrary hscope).of_eq_ok hactual
  have hparamwf : param.WellFormed := hbinds.wellFormed_param hlibrary hparam
  obtain ⟨param', σ₁, σ₂, hparam', hbefore, hafter, hcases⟩ := hbinds.plain_cut hlibrary hscope harg
  obtain rfl : param' = param := Option.some.inj (hparam'.symm.trans hparam)
  rw [hlambda, Bool.false_and] at hcases
  obtain ⟨actual', hactual', hcheck⟩ := (hcases.resolve_left fun h => Bool.noConfusion h.1).2
  obtain rfl : actual' = actual := Except.ok.inj (hactual'.symm.trans hactual)
  have hσ₁ : Entries.All WellFormed σ₁ := hbefore.wellFormed .nil
  have haccept := (checkArgument_eq_ok hcheck).1
  have hmatched := Ty.accept_fits_ground hparamwf hwf hσ₁ hdefinite haccept
  by_cases hfunction : param'.isFunction = true
  · -- the match cannot have succeeded: a type without functions fits no function
    cases param' with
    | function ps r => exact absurd hmatched (Ty.not_fits_ground_function hdefinite hwf)
    | _ => cases hfunction
  have hlater : Observations (sig.Mentions (· ≠ i)) σ₂ σ :=
    hafter.trans (hbinds.lambdas_observations_of_not_isFunction hlibrary hscope hparam
      (Bool.eq_false_iff.mpr hfunction))
  rcases hsettles with (hfun | hclosed | hvar | ⟨hvarArray, htakes⟩ | ⟨hvariadic, hothers⟩) |
    ⟨hvarArray, hflat⟩
  · exact absurd hfun hfunction
  · have hclosed := Ty.hasVar_eq_false_iff.mp hclosed
    rw [Ty.ground_of_closed hparamwf hclosed] at hmatched ⊢
    exact hmatched
  · cases param' with
    | var bound => exact fits_ground_of_accept_var hwf hσ₁ hdefinite haccept hlater
    | _ => cases hvar
  · exact fits_ground_of_varArray hvarArray hwf hσ₁ hdefinite hcheck (Or.inl htakes) hlater
  · -- no later match has anything to observe, so the assignment stays as it was
    rw [hlater.eq_of_forall_not (sig.not_mentions hvariadic hothers)]
    exact hmatched
  · exact fits_ground_of_varArray hvarArray hwf hσ₁ hdefinite hcheck (Or.inr hflat) hlater

/-! ### The standard library -/

/-- In the standard library every match is final but those of the arrays of `append` and `includes`. -/
theorem settlesAt_standard (hsig : sig ∈ Library.standardSignatures)
    (hparam : sig.paramAt? i = some param) : sig.SettlesAt i param ∨
      (param.isVarArray = true ∧ i = 0 ∧ (sig.name = "append" ∨ sig.name = "includes")) := by
  have htable : ∀ sig ∈ Library.standardSignatures, ∀ entry ∈ sig.params.zipIdx,
      sig.SettlesAt entry.2 entry.1 ∨ (entry.1.isVarArray = true ∧ entry.2 = 0 ∧
        (sig.name = "append" ∨ sig.name = "includes")) := by
    decide
  have hvariadic : ∀ sig ∈ Library.standardSignatures, sig.variadic = true →
      ∀ param ∈ sig.params, param.hasVar = false ∨ param.isVar = true := by
    decide
  unfold Signature.paramAt? at hparam
  split at hparam
  · rename_i found hfound
    obtain rfl := Option.some.inj hparam
    exact htable sig hsig (found, i) (List.mem_zipIdx_iff_getElem?.mpr hfound)
  · split at hparam
    · rename_i hrepeats
      rcases hvariadic sig hsig hrepeats param (List.mem_of_getLast? hparam) with hclosed | hvar
      · exact Or.inl (.inr (.inl hclosed))
      · exact Or.inl (.inr (.inr (.inl hvar)))
    · cases hparam

/-- **Arguments of accepted calls fit.** When a call of the standard library is accepted, the type of
every argument that is not a function written in place, if it has neither `any` nor a function in it, is
a subtype of its parameter under the assignment that gives the call its type. The one exception is a
union as the array of `append` and `includes`. -/
theorem argument_subtypeOf_param (hscope : scope.AllBound WellFormed)
    (hcall : infer Library.standard scope (.call name args location) = .ok t) :
    ∃ sig σ₀ σ, Binds Library.standard scope name args location sig σ₀ σ ∧
      t = sig.result.ground σ ∧
      ∀ i arg actual, args[i]? = some arg → arg.isLambda = false →
        infer Library.standard scope arg = .ok actual → actual.Definite →
        ¬ (i = 0 ∧ (name = "append" ∨ name = "includes") ∧ actual.isUnion = true) →
        ∃ param, sig.paramAt? i = some param ∧ actual.subtypeOf (param.ground σ) = true := by
  have hlibrary := Library.wellFormed_standard
  obtain ⟨sig, σ₀, σ, hbinds, ht⟩ := infer_call_eq_ok_iff.mp hcall
  refine ⟨sig, σ₀, σ, hbinds, ht, ?_⟩
  intro i arg actual harg hlambda hactual hdefinite hexcept
  obtain ⟨hsig, hname⟩ := Library.mem_of_find?_standard hbinds.found
  obtain ⟨param, _, _, hparam, _⟩ := hbinds.plain_cut hlibrary hscope harg
  refine ⟨param, hparam, ?_⟩
  have hsettles : sig.SettlesAt i param ∨ (param.isVarArray = true ∧ actual.isUnion = false) := by
    rcases settlesAt_standard hsig hparam with hsettles | ⟨hvarArray, hi, hnames⟩
    · exact Or.inl hsettles
    · refine Or.inr ⟨hvarArray, Bool.eq_false_iff.mpr fun hunion => ?_⟩
      exact hexcept ⟨hi, hname ▸ hnames, hunion⟩
  have hfits := argument_fits hlibrary hscope hbinds harg hlambda hactual hdefinite hparam hsettles
  have hwf : actual.WellFormed := (wellFormed_invariant.infer hlibrary hscope).of_eq_ok hactual
  have hparamwf : param.WellFormed := hbinds.wellFormed_param hlibrary hparam
  obtain ⟨_, hσ⟩ := hbinds.all_good wellFormed_invariant hlibrary hscope
  exact Ty.subtypeOf_of_fits hwf (Ty.wellFormed_ground hparamwf hσ) hfits

/-- The array is matched while its elements are integers; null as a new element then widens them. -/
theorem argument_subtypeOf_param_of_null :
    let scope : Scope := Scope.empty.bind "xs" (.array .integer)
    let args : List Expr := [.path "xs" none, .literal .null none]
    infer Library.standard scope (.call "append" args none) =
        .ok (.array (.union [.integer, .null])) ∧
      ∃ sig σ₀ σ param, Binds Library.standard scope "append" args none sig σ₀ σ ∧
        sig.paramAt? 0 = some param ∧
        (Ty.array .integer).subtypeOf (param.ground σ) = true := by
  intro scope args
  have hcall : infer Library.standard scope (.call "append" args none) =
      .ok (.array (.union [.integer, .null])) := by
    with_unfolding_all rfl
  obtain ⟨sig, σ₀, σ, hbinds, _, hfits⟩ := argument_subtypeOf_param (by decide) hcall
  obtain ⟨param, hparam, hsub⟩ :=
    hfits 0 (.path "xs" none) (.array .integer) rfl rfl rfl (by decide) (by decide)
  exact ⟨hcall, sig, σ₀, σ, param, hbinds, hparam, hsub⟩

/-- A union of arrays is appended to: it is taken while `T` is not bound, and then the new element alone
says what `T` stands for. -/
theorem argument_not_subtypeOf_param_of_union :
    let arrays : Ty := .union [.array .string, .array .boolean]
    let scope : Scope := Scope.empty.bind "xs" arrays
    let args : List Expr := [.path "xs" none, .literal (.integer 1) none]
    ∃ sig σ₀ σ param, Binds Library.standard scope "append" args none sig σ₀ σ ∧
      scope.AllBound WellFormed ∧
      infer Library.standard scope (.call "append" args none) = .ok (.array .integer) ∧
      infer Library.standard scope (.path "xs" none) = .ok arrays ∧ arrays.Definite ∧
      sig.paramAt? 0 = some param ∧ arrays.subtypeOf (param.ground σ) = false := by
  intro arrays scope args
  refine ⟨.fixed "append" [.array (.var "T"), .var "T"] (.array (.var "T")), [("T", .integer)],
    [("T", .integer)], .array (.var "T"), ⟨rfl, rfl, ?_, ?_⟩, by decide, ?_, rfl, by decide, rfl, ?_⟩
  · with_unfolding_all rfl
  · with_unfolding_all rfl
  · with_unfolding_all rfl
  · decide +kernel

end Typing

end SchemaInfer
