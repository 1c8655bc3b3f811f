import SchemaInfer.Proofs.ArgumentSoundness

/-!
# Collection expressions and calls of collection functions

`map` and `filter` are expressions of their own and also functions of the standard library. The
expression looks at the elements of its collection and infers the body with them; the call counts its
arguments, matches the collection with an array of a type variable, and infers the body in a second
round with what the variable stands for. Both ways agree: a type that is no array and is not unknown does
not fit an array of a variable, so the call binds the variable to the element type or fails as the
expression does. Only where the body of a filter is no condition do the errors differ.
-/

namespace SchemaInfer

namespace Ty

theorem eq_boolean_of_fits {a : Ty} (ha : a.WellFormed) (h : Fits a boolean) : a = boolean := by
  refine eq_of_fits_of_unique ?_ ha h
  intro s _ hflat hs
  cases hs with
  | primitive => rfl
  | unionLeft => cases hflat

/-- Being unknown or a subtype of `boolean` is being a condition. -/
theorem isCondition_iff {t : Ty} (ht : t.WellFormed) :
    (t.isAny || t.subtypeOf boolean) = t.isCondition := by
  have hboolean : boolean.WellFormed := .of_isPrimitive rfl
  rw [Bool.eq_iff_iff, Bool.or_eq_true]
  constructor
  · rintro (hany | hsub)
    · cases t with
      | any => rfl
      | _ => cases hany
    · rw [eq_boolean_of_fits ht (fits_of_subtypeOf ht hboolean hsub)]
      rfl
  · intro h
    cases t with
    | any => exact Or.inl rfl
    | boolean => exact Or.inr (subtypeOf_of_fits hboolean hboolean (.refl hboolean))
    | _ => cases h

end Ty

namespace Typing

open Ty (WellFormed Closed)

variable {library : Library} {scope : Scope} {sig : Signature} {location place : Option Location}
  {name : String} {collection body : Expr} {names : List String} {position : Nat}
  {input returns result : Ty}

/-- A collection that is matched first binds the variable to the type of its elements. -/
theorem checkArgument_collection (hinput : input.WellFormed) (htakes : sig.takesFunction = true) :
    checkArgument sig position (.array (.var name)) input [] location =
      match input.elements? with
      | none => fail (.nonArray sig.name input) location
      | some element => .ok [(name, element)] := by
  have hparam : (Ty.array (.var name)).WellFormed := WellFormed.array_iff.mpr .var
  have hsub : input.elements? = none → input.subtypeOf (.array (.var name)) = false := by
    intro hnone
    apply Bool.eq_false_iff.mpr
    intro hsub
    rw [Ty.eq_array_var_of_fits hinput (Ty.fits_of_subtypeOf hinput hparam hsub)] at hnone
    cases hnone
  cases input with
  | array t => simp [checkArgument, Ty.isArray, Ty.accept, Ty.elements?, Entries.insert]
  | any => simp [checkArgument, Ty.isAny, Ty.accept, Ty.elements?, Entries.insert, Ty.hasVar]
  | _ =>
    unfold checkArgument
    rw [if_pos]
    · rfl
    · simp [hsub rfl, htakes, Ty.isArray, Ty.isAny]

theorem checkArgument_condition {actual : Ty} {σ : Assignment} (hactual : actual.WellFormed) :
    checkArgument sig position .boolean actual σ location =
      if actual.isCondition then .ok σ
      else fail (.mismatch .boolean actual (argumentPlace position sig.name)) location := by
  have haccept : Ty.boolean.accept actual σ =
      if actual.isCondition then .ok σ else .error (.unfit σ) := by
    rw [← Ty.isCondition_iff hactual]
    rfl
  unfold checkArgument
  rw [if_neg (by simp [Ty.isArray]), haccept]
  by_cases hcondition : actual.isCondition = true
  · rw [if_pos hcondition, if_pos hcondition]
  · rw [if_neg hcondition, if_neg hcondition]
    rfl

/-! ### What an expression and a call have in common -/

/-- Infers a body for the elements of a collection and goes on with the type of the elements and that of
the body. -/
def overElements (library : Library) (scope : Scope) (operation : String) (collection : Expr)
    (names : List String) (body : Expr) (location : Option Location)
    (finish : Ty → Ty → Except TypeError Ty) : Except TypeError Ty := do
  let input ← infer library scope collection
  match input.elements? with
  | none => fail (.nonArray operation input) location
  | some element => infer library (scope.enterAll names [element]) body >>= finish element

section Inherited

variable {Good Declared : Ty → Prop} (inv : InferenceInvariant Good Declared)
  (hlibrary : library.AllDeclared Declared) (hscope : scope.AllBound Good)
include inv hlibrary hscope

theorem good_element {element : Ty} (hinput : infer library scope collection = .ok input)
    (helements : input.elements? = some element) : Good element :=
  inv.elements? ((inv.infer hlibrary hscope).of_eq_ok hinput) helements

theorem good_body {element actual : Ty} (helement : Good element)
    (hbody : infer library (scope.enterAll names [element]) body = .ok actual) : Good actual := by
  have hinner := inv.enterAll names (List.forall_mem_singleton.mpr helement) hscope
  exact (inv.infer hlibrary hinner).of_eq_ok hbody

end Inherited

theorem overElements_rel {R : Except TypeError Ty → Except TypeError Ty → Prop}
    {finish finish' : Ty → Ty → Except TypeError Ty} (hlibrary : library.AllDeclared WellFormed)
    (hscope : scope.AllBound WellFormed) (hclosed : scope.AllBound Closed) (hrefl : ∀ x, R x x)
    (h : ∀ element actual, element.Closed → actual.WellFormed → actual.Closed →
      R (finish element actual) (finish' element actual)) :
    R (overElements library scope name collection names body location finish)
      (overElements library scope name collection names body location finish') := by
  unfold overElements
  cases hinput : infer library scope collection with
  | error failure => exact hrefl _
  | ok input =>
    rw [ok_bind, ok_bind]
    cases helements : input.elements? with
    | none => exact hrefl _
    | some element =>
      have hwf := good_element wellFormed_invariant hlibrary hscope hinput helements
      have helement := good_element closed_invariant library.allDeclared_true hclosed hinput helements
      change R (infer library (scope.enterAll names [element]) body >>= _)
        (infer library (scope.enterAll names [element]) body >>= _)
      cases hbody : infer library (scope.enterAll names [element]) body with
      | error failure => exact hrefl _
      | ok actual =>
        apply h element actual helement
        · exact good_body wellFormed_invariant hlibrary hscope hwf hbody
        · exact good_body closed_invariant library.allDeclared_true hclosed helement hbody

theorem infer_map : infer library scope (.map collection names body location) =
    overElements library scope "map" collection names body location
      fun _ actual => .ok (.array actual) := by
  rw [infer]
  rfl

theorem infer_filter : infer library scope (.filter collection names body location) =
    overElements library scope "filter" collection names body location fun element actual =>
      if actual.isCondition then .ok (.array element)
      else fail (.nonBooleanCondition actual) location := by
  rw [infer]
  rfl

/-! ### Calls -/

/-- A function that takes a collection and a function of its elements. -/
abbrev collectionFunction (name : String) (returns result : Ty) : Signature :=
  .fixed name [.array (.var "T"), .function [.var "T"] returns] result

theorem bindPlain_collection : bindPlain library scope (collectionFunction name returns result) 2
    location 0 [] [collection, .lambda names body place] =
      infer library scope collection >>= fun input =>
        checkArgument (collectionFunction name returns result) 0 (.array (.var "T")) input []
          location := by
  simp [bindPlain, Signature.paramAt?, Signature.fixed, Ty.isFunction, Expr.isLambda]

theorem bindLambdas_collection {σ : Assignment} (hnames : names.length ≤ 1) :
    bindLambdas library scope (collectionFunction name returns result) location 0 σ
      [collection, .lambda names body place] =
        infer library (scope.enterAll names [(Ty.var "T").ground σ]) body >>= fun actual =>
          checkArgument (collectionFunction name returns result) 1 returns actual σ location := by
  have hcount : ¬ 1 < names.length := Nat.not_lt.mpr hnames
  cases collection <;> simp [bindLambdas, Signature.paramAt?, Signature.fixed, hcount]

theorem infer_call_collection (hlibrary : library.AllDeclared WellFormed)
    (hscope : scope.AllBound WellFormed) (hclosed : scope.AllBound Closed)
    (hfind : library.find? name = some (collectionFunction name returns result))
    (hnames : names.length ≤ 1) :
    infer library scope (.call name [collection, .lambda names body place] location) =
      overElements library scope name collection names body location fun element actual =>
        checkArgument (collectionFunction name returns result) 1 returns actual [("T", element)]
          location >>= fun σ => .ok (result.ground σ) := by
  rw [infer, hfind]
  change (bindPlain library scope (collectionFunction name returns result) 2 location 0 []
    [collection, .lambda names body place] >>= fun σ => bindLambdas library scope
      (collectionFunction name returns result) location 0 σ [collection, .lambda names body place]
        >>= fun σ => .ok (result.ground σ)) = _
  rw [bindPlain_collection, bind_assoc, overElements]
  cases hinput : infer library scope collection with
  | error failure => rfl
  | ok input =>
    have hwf : input.WellFormed := (wellFormed_invariant.infer hlibrary hscope).of_eq_ok hinput
    rw [ok_bind, ok_bind, checkArgument_collection hwf rfl]
    cases helements : input.elements? with
    | none => rfl
    | some element =>
      have helement := good_element closed_invariant library.allDeclared_true hclosed hinput helements
      have hground : (Ty.var "T").ground [("T", element)] = element := Ty.ground_var rfl helement
      change (Except.ok [("T", element)] >>= _) = _
      rw [ok_bind, bindLambdas_collection hnames, hground, bind_assoc]

/-! ### Both ways agree -/

section Agree

variable (hlibrary : library.AllDeclared WellFormed) (hscope : scope.AllBound WellFormed)
  (hclosed : scope.AllBound Closed) (hnames : names.length ≤ 1)
include hlibrary hscope hclosed hnames

theorem infer_map_eq_call
    (hfind : library.find? "map" = some (collectionFunction "map" (.var "R") (.array (.var "R")))) :
    infer library scope (.map collection names body location) =
      infer library scope (.call "map" [collection, .lambda names body place] location) := by
  rw [infer_call_collection hlibrary hscope hclosed hfind hnames, infer_map]
  refine overElements_rel hlibrary hscope hclosed (fun _ => rfl) fun element actual _ _ hactual => ?_
  have hcheck : checkArgument (collectionFunction "map" (.var "R") (.array (.var "R"))) 1 (.var "R")
      actual [("T", element)] location = .ok (Entries.insert "R" actual [("T", element)]) := rfl
  rw [hcheck, ok_bind, Ty.ground_array, Ty.ground_var Entries.lookup_insert_self hactual]

/-- The one case in which a filter and the call differ is a body that is no condition: both fail, but
they say so in different words. -/
theorem infer_filter_cases
    (hfind : library.find? "filter" =
      some (collectionFunction "filter" .boolean (.array (.var "T")))) :
    infer library scope (.filter collection names body location) =
        infer library scope (.call "filter" [collection, .lambda names body place] location) ∨
      ∃ actual, infer library scope (.filter collection names body location) =
          fail (.nonBooleanCondition actual) location ∧
        infer library scope (.call "filter" [collection, .lambda names body place] location) =
          fail (.mismatch .boolean actual (argumentPlace 1 "filter")) location := by
  rw [infer_call_collection hlibrary hscope hclosed hfind hnames, infer_filter]
  refine @overElements_rel _ _ _ _ _ _ _ (fun x y => x = y ∨ ∃ actual,
    x = fail (.nonBooleanCondition actual) location ∧
      y = fail (.mismatch .boolean actual (argumentPlace 1 "filter")) location) _ _
    hlibrary hscope hclosed (fun _ => Or.inl rfl) fun element actual helement hactual _ => ?_
  rw [checkArgument_condition hactual]
  by_cases hcondition : actual.isCondition = true
  · rw [if_pos hcondition, if_pos hcondition, ok_bind, Ty.ground_array, Ty.ground_var rfl helement]
    exact Or.inl rfl
  · rw [if_neg hcondition, if_neg hcondition]
    exact Or.inr ⟨actual, rfl, rfl⟩

end Agree

/-- **The expressions `map` and `filter` are calls.** In a scope of well-formed types without variables,
and with a library of well-formed signatures in which `map` and `filter` are those of the standard one,
the expression `map` and the call of `map` with a function of at most one parameter have the same
outcome, type or error; and the expression `filter` has a type exactly if the call of `filter` does, and
it is the same. -/
theorem infer_collection_eq_call (hlibrary : library.AllDeclared WellFormed)
    (hscope : scope.AllBound WellFormed) (hclosed : scope.AllBound Closed)
    (hmap : library.find? "map" = Library.standard.find? "map")
    (hfilter : library.find? "filter" = Library.standard.find? "filter")
    (hnames : names.length ≤ 1) :
    infer library scope (.map collection names body location) =
        infer library scope (.call "map" [collection, .lambda names body place] location) ∧
      ∀ t, infer library scope (.filter collection names body location) = .ok t ↔
        infer library scope (.call "filter" [collection, .lambda names body place] location) =
          .ok t := by
  refine ⟨infer_map_eq_call hlibrary hscope hclosed hnames hmap, fun t => ?_⟩
  rcases infer_filter_cases hlibrary hscope hclosed hnames hfilter with heq | ⟨actual, hleft, hright⟩
  · rw [heq]
  · rw [hleft, hright]
    constructor <;> intro h <;> cases h

/-- The body compares a part of the element with a name from outside. -/
theorem infer_collection_eq_call_of_comparison :
    let line : Ty := .object [("price", Property.optional (.union [.number, .null]))] false
    let scope : Scope := (Scope.empty.bind "lines" (.array line)).bind "limit" .number
    let body : Expr := .binary .less (.path "line.price" none) (.path "limit" none) none
    let location : Option Location := some { file := none, line := 3, column := 7 }
    let args : List Expr := [.path "lines" none, .lambda ["line"] body none]
    (Library.standard.AllDeclared WellFormed ∧ scope.AllBound WellFormed ∧ scope.AllBound Closed) ∧
      infer Library.standard scope (.call "map" args location) = .ok (.array .boolean) ∧
      infer Library.standard scope (.call "filter" args location) = .ok (.array line) := by
  intro line scope body location args
  have hlibrary := Library.wellFormed_standard
  have hscope : scope.AllBound WellFormed := by decide
  have hclosed : scope.AllBound Closed := by decide
  have hmap : infer Library.standard scope (.map (.path "lines" none) ["line"] body location) =
      .ok (.array .boolean) := by
    with_unfolding_all rfl
  have hfilter : infer Library.standard scope (.filter (.path "lines" none) ["line"] body location) =
      .ok (.array line) := by
    with_unfolding_all rfl
  have hnames : ["line"].length ≤ 1 := Nat.le_refl 1
  refine ⟨⟨hlibrary, hscope, hclosed⟩, ?_, ?_⟩
  · exact (infer_collection_eq_call hlibrary hscope hclosed rfl rfl hnames).1.symm.trans hmap
  · exact ((infer_collection_eq_call hlibrary hscope hclosed rfl rfl hnames).2 _).mp hfilter

end Typing

end SchemaInfer
