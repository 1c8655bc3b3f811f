import SchemaInfer.Proofs.Entries
import SchemaInfer.Proofs.Outcomes
import SchemaInfer.Proofs.Unions
import SchemaInfer.Typing.Infer

/-!
# Invariants of inference

Inference builds the type of an expression from the types in the scope and in the signatures, by a
handful of operations: it takes types apart, joins them, and puts types for the variables of a
signature. `InferenceInvariant` lists what a property of types has to be closed under, and the
results below carry such a property through every operation, through the two rounds over the
arguments of a call, and through all expressions: if it holds of what the scope binds, it holds of the
inferred type and of every type that an error shows.
-/

namespace SchemaInfer

/-! ### Induction on expressions -/

/-- Induction on an expression. A call gives a hypothesis for each argument and, since functions
written in place are looked into, for the bodies of those. -/
@[elab_as_elim, induction_eliminator]
theorem Expr.induction {motive : Expr → Prop}
    (literal : ∀ value location, motive (.literal value location))
    (path : ∀ path location, motive (.path path location))
    (member : ∀ object property location, motive object →
      motive (.member object property location))
    (unary : ∀ op operand location, motive operand → motive (.unary op operand location))
    (binary : ∀ op left right location, motive left → motive right →
      motive (.binary op left right location))
    (conditional : ∀ condition thenBranch elseBranch location, motive condition →
      motive thenBranch → motive elseBranch →
      motive (.conditional condition thenBranch elseBranch location))
    (call : ∀ name args location, (∀ arg ∈ args, motive arg) →
      (∀ params body place, .lambda params body place ∈ args → motive body) →
      motive (.call name args location))
    (map : ∀ collection params body location, motive collection → motive body →
      motive (.map collection params body location))
    (filter : ∀ collection params body location, motive collection → motive body →
      motive (.filter collection params body location))
    (lambda : ∀ params body location, motive body → motive (.lambda params body location))
    (letIn : ∀ name value body location, motive value → motive body →
      motive (.letIn name value body location))
    (object : ∀ entries location, (∀ key value, (key, value) ∈ entries → motive value) →
      motive (.object entries location))
    (array : ∀ elements location, (∀ element ∈ elements, motive element) →
      motive (.array elements location)) : ∀ expr, motive expr := by
  intro expr
  induction hsize : sizeOf expr using Nat.strongRecOn generalizing expr with
  | _ size ih =>
  subst hsize
  have smaller : ∀ part, sizeOf part < sizeOf expr → motive part :=
    fun part hlt => ih _ hlt part rfl
  cases expr with
  | literal value location => exact literal value location
  | path text location => exact path text location
  | member o property location => exact member o property location (smaller _ (by simp +arith))
  | unary op operand location => exact unary op operand location (smaller _ (by simp +arith))
  | binary op left right location =>
    exact binary op left right location (smaller _ (by simp +arith)) (smaller _ (by simp +arith))
  | conditional c t e location =>
    exact conditional c t e location (smaller _ (by simp +arith)) (smaller _ (by simp +arith))
      (smaller _ (by simp +arith))
  | call name args location =>
    have hargs : ∀ arg ∈ args, sizeOf arg < sizeOf (Expr.call name args location) := by
      intro arg harg
      have hlt := List.sizeOf_lt_of_mem harg
      simp +arith
      omega
    refine call name args location (fun arg harg => smaller _ (hargs arg harg)) ?_
    intro params body place hmem
    refine smaller body (Nat.lt_trans ?_ (hargs _ hmem))
    simp +arith
  | map collection params body location =>
    exact map collection params body location (smaller _ (by simp +arith))
      (smaller _ (by simp +arith))
  | filter collection params body location =>
    exact filter collection params body location (smaller _ (by simp +arith))
      (smaller _ (by simp +arith))
  | lambda params body location => exact lambda params body location (smaller _ (by simp +arith))
  | letIn name value body location =>
    exact letIn name value body location (smaller _ (by simp +arith)) (smaller _ (by simp +arith))
  | object entries location =>
    refine object entries location fun key value hmem => smaller _ ?_
    have hlt := List.sizeOf_lt_of_mem hmem
    simp +arith at hlt ⊢
    omega
  | array elements location =>
    refine array elements location fun element hmem => smaller _ ?_
    have hlt := List.sizeOf_lt_of_mem hmem
    simp +arith
    omega

/-- The types that an error shows. -/
def TypeError.Cause.types : TypeError.Cause → List Ty
  | mismatch expected actual _ => [expected, actual]
  | nonBooleanCondition actual => [actual]
  | nonArray _ actual => [actual]
  | conflict _ _ bound found => [bound, found]
  | unknownPath _ | unknownFunction _ | argumentCount _ _ _ _ => []

/-! ### What an invariant has to be closed under -/

/-- A property of types that inference keeps: it holds of the types without parts, it passes from
arrays, functions, objects and unions to their parts and back to what inference builds of them, and
putting types that have it for the variables of a signature gives a type that has it. Of the types in
signatures themselves only `Declared` is known. -/
structure InferenceInvariant (Good Declared : Ty → Prop) : Prop where
  primitive : ∀ {t}, t.isPrimitive = true → Good t
  array_iff : ∀ {t}, Good (.array t) ↔ Good t
  function_iff : ∀ {ps r}, Good (.function ps r) ↔ (∀ p ∈ ps, Good p) ∧ Good r
  property : ∀ {ps isOpen name p}, Good (.object ps isOpen) → (name, p) ∈ ps → Good p.ty
  closedObject : ∀ {ps : Properties}, (∀ name p, (name, p) ∈ ps → Good p.ty) →
    Good (.closedObject ps)
  member : ∀ {ms m}, Good (.union ms) → m ∈ ms → Good m
  oneOf : ∀ {ts}, (∀ t ∈ ts, Good t) → Good (.oneOf ts)
  declaredParams : ∀ {ps r}, Declared (.function ps r) → ∀ p ∈ ps, Declared p
  declaredResult : ∀ {ps r}, Declared (.function ps r) → Declared r
  ground : ∀ {t} {σ : Assignment}, Declared t → (∀ name s, (name, s) ∈ σ → Good s) →
    Good (t.ground σ)

/-! ### Postconditions -/

/-- All types in the failure of a match have a property. -/
def MatchFailure.Shows (Good : Ty → Prop) : MatchFailure → Prop
  | unfit σ => Entries.All Good σ
  | conflict _ bound found => Good bound ∧ Good found

/-- All types that an error shows have a property. -/
def TypeError.Shows (Good : Ty → Prop) (error : TypeError) : Prop :=
  ∀ t ∈ error.cause.types, Good t

/-- All types that a scope and the scopes around it bind have a property. -/
def Scope.AllBound (Good : Ty → Prop) (scope : Scope) : Prop :=
  ∀ bindings ∈ scope.levels, Entries.All Good bindings

instance {Good : Ty → Prop} [DecidablePred Good] {scope : Scope} :
    Decidable (scope.AllBound Good) :=
  inferInstanceAs (Decidable (∀ bindings ∈ scope.levels, Entries.All Good bindings))

theorem Scope.AllBound.enter {Good : Ty → Prop} {scope : Scope} {name : String} {t : Ty}
    (hscope : scope.AllBound Good) (ht : Good t) : (scope.enter name t).AllBound Good :=
  List.forall_mem_cons.mpr ⟨Entries.All.cons_iff.mpr ⟨ht, .nil⟩, hscope⟩

theorem Signature.mem_params_of_paramAt? {position : Nat} {param : Ty} (sig : Signature)
    (h : sig.paramAt? position = some param) : param ∈ sig.params := by
  unfold Signature.paramAt? at h
  split at h
  · rename_i first hfirst
    exact Option.some.inj h ▸ List.mem_of_getElem? hfirst
  · split at h
    · exact List.mem_of_getLast? h
    · cases h

/-- All types in the signatures of a library have a property. -/
def Library.AllDeclared (Declared : Ty → Prop) (library : Library) : Prop :=
  ∀ name sig, library.find? name = some sig →
    (∀ p ∈ sig.params, Declared p) ∧ Declared sig.result

namespace Ty

theorem eq_or_eq_of_wider? {a b u : Ty} (h : wider? a b = some u) : u = a ∨ u = b := by
  unfold wider? at h
  split at h
  · exact Or.inl (Option.some.inj h).symm
  · split at h
    · exact Or.inr (Option.some.inj h).symm
    · cases h

theorem mem_selections {name : String} {selected : Option Ty} {ms : List Ty}
    (h : selected ∈ selections name ms) : ∃ m ∈ ms, selected = m.select? name := by
  induction ms with
  | nil => cases h
  | cons m ms ih =>
    rw [selections] at h
    split at h
    · obtain ⟨m', hm', heq⟩ := ih h
      exact ⟨m', List.mem_cons_of_mem _ hm', heq⟩
    · rcases List.mem_cons.mp h with heq | hrest
      · exact ⟨m, List.mem_cons_self, heq⟩
      · obtain ⟨m', hm', heq⟩ := ih hrest
        exact ⟨m', List.mem_cons_of_mem _ hm', heq⟩

theorem fit_ends {Good : Ty → Prop} {param actual : Ty} {σ : Assignment} (hσ : Entries.All Good σ) :
    Ends (Entries.All Good) (MatchFailure.Shows Good) (param.fit actual σ) := by
  unfold fit
  generalize (actual.isAny || _) = fits
  cases fits with
  | true => exact hσ
  | false => exact hσ

theorem acceptAll_ends {Good : Ty → Prop} {params actuals : List Ty} {σ : Assignment}
    (haccept : ∀ p ∈ params, ∀ {actual σ}, Good actual → Entries.All Good σ →
      Ends (Entries.All Good) (MatchFailure.Shows Good) (p.accept actual σ))
    (hactuals : ∀ t ∈ actuals, Good t) (hσ : Entries.All Good σ) :
    Ends (Entries.All Good) (MatchFailure.Shows Good) (acceptAll params actuals σ) := by
  induction params generalizing actuals σ with
  | nil => exact hσ
  | cons p ps ih =>
    cases actuals with
    | nil => exact hσ
    | cons t ts =>
      obtain ⟨ht, hts⟩ := List.forall_mem_cons.mp hactuals
      obtain ⟨hp, hps⟩ := List.forall_mem_cons.mp haccept
      have hfirst := hp ht hσ
      rw [acceptAll]
      split
      · rename_i σ' heq
        rw [heq] at hfirst
        exact ih hps hts hfirst
      · rename_i failure heq
        rw [heq] at hfirst
        exact hfirst

end Ty

namespace Typing

variable {Good : Ty → Prop} {library : Library} {scope : Scope}

theorem inferEntries_ends {entries : List (String × Expr)}
    (hentries : ∀ key value, (key, value) ∈ entries →
      Ends Good (TypeError.Shows Good) (infer library scope value)) :
    Ends (Entries.All fun p => Good p.ty) (TypeError.Shows Good)
      (inferEntries library scope entries) := by
  induction entries with
  | nil => exact .nil
  | cons entry entries ih =>
    obtain ⟨key, value⟩ := entry
    rw [inferEntries]
    refine (hentries key value List.mem_cons_self).bind fun t ht => ?_
    refine (ih fun k v hmem => hentries k v (List.mem_cons_of_mem _ hmem)).bind fun ps hps => ?_
    exact Entries.All.cons_iff.mpr ⟨ht, hps⟩

theorem inferAll_ends {exprs : List Expr}
    (hexprs : ∀ e ∈ exprs, Ends Good (TypeError.Shows Good) (infer library scope e)) :
    Ends (fun types => ∀ t ∈ types, Good t) (TypeError.Shows Good)
      (inferAll library scope exprs) := by
  induction exprs with
  | nil => exact List.forall_mem_nil _
  | cons e es ih =>
    obtain ⟨he, hes⟩ := List.forall_mem_cons.mp hexprs
    rw [inferAll]
    refine he.bind fun t ht => (ih hes).bind fun ts hts => ?_
    exact List.forall_mem_cons.mpr ⟨ht, hts⟩

end Typing

namespace InferenceInvariant

variable {Good Declared : Ty → Prop} (inv : InferenceInvariant Good Declared)
include inv

/-! ### Operations on types -/

variable {a b t u : Ty}

theorem orNull (ht : Good t) : Good t.orNull := by
  unfold Ty.orNull
  split
  · exact inv.primitive rfl
  · exact inv.primitive rfl
  · exact inv.oneOf (Ty.forall_mem_pair.mpr ⟨ht, inv.primitive rfl⟩)

theorem withoutNull (ht : Good t) : Good t.withoutNull := by
  unfold Ty.withoutNull
  split
  · exact inv.oneOf fun m hm => inv.member ht (List.mem_of_mem_filter hm)
  · exact ht

theorem join (ha : Good a) (hb : Good b) : Good (a.join b) :=
  Ty.join_of_oneOf (inv.primitive rfl) inv.oneOf ha hb

theorem elementOf {ts : List Ty} (hts : ∀ t ∈ ts, Good t) : Good (Ty.elementOf ts) := by
  cases ts with
  | nil => exact inv.primitive rfl
  | cons t ts =>
    obtain ⟨ht, hts⟩ := List.forall_mem_cons.mp hts
    exact Ty.foldl_join_of_oneOf (inv.primitive rfl) inv.oneOf ht hts

theorem refine? (ha : Good a) (hb : Good b) (h : Ty.refine? a b = some u) : Good u := by
  unfold Ty.refine? at h
  split at h
  · rename_i wider hwider
    obtain rfl := Option.some.inj h
    rcases Ty.eq_or_eq_of_wider? hwider with rfl | rfl
    · exact ha
    · exact hb
  · split at h
    · exact Option.some.inj h ▸ inv.orNull ha
    · split at h
      · exact Option.some.inj h ▸ inv.orNull hb
      · split at h
        · obtain ⟨wider, hwider, rfl⟩ := Option.map_eq_some_iff.mp h
          rcases Ty.eq_or_eq_of_wider? hwider with rfl | rfl
          · exact inv.orNull (inv.withoutNull ha)
          · exact inv.orNull (inv.withoutNull hb)
        · cases h

/-! ### Paths -/

theorem select? {name : String} (ht : Good t) (h : t.select? name = some u) : Good u := by
  induction t generalizing u with
  | any =>
    rw [Ty.select?] at h
    exact Option.some.inj h ▸ ht
  | object ps isOpen ih =>
    rw [Ty.select?] at h
    obtain ⟨p, hp, rfl⟩ := Option.map_eq_some_iff.mp h
    exact inv.property ht (Entries.mem_of_lookup hp)
  | array t ih =>
    rw [Ty.select?] at h
    have helement := inv.array_iff.mp ht
    split at h
    · exact Option.some.inj h ▸ helement
    · exact ih helement h
  | union ms ih =>
    rw [Ty.select?] at h
    split at h
    · split at h
      · rename_i selected hselected
        obtain ⟨v, rfl, rfl⟩ := Option.map_eq_some_iff.mp h
        obtain ⟨m, hm, heq⟩ := Ty.mem_selections (hselected ▸ List.mem_singleton_self _)
        exact inv.orNull (ih m hm (inv.member ht hm) heq.symm)
      · cases h
    · cases h
  | string | number | integer | boolean | null | var _ | function _ _ _ _ => cases h

theorem indexed? {indexes : Nat} (ht : Good t) (h : t.indexed? indexes = some u) : Good u := by
  induction indexes generalizing t with
  | zero => exact Option.some.inj h ▸ ht
  | succ n ih =>
    cases t with
    | array t => exact ih (inv.array_iff.mp ht) h
    | any => exact ih ht h
    | _ => cases h

theorem descend? {segment : List Char} (ht : Good t) (h : t.descend? segment = some u) :
    Good u := by
  obtain ⟨s, _, h⟩ := Option.bind_eq_some_iff.mp h
  dsimp only at h
  split at h
  · exact inv.indexed? ht h
  · obtain ⟨selected, hselected, h⟩ := Option.bind_eq_some_iff.mp h
    exact inv.indexed? (inv.select? ht hselected) h

theorem follow? {segments : List (List Char)} (ht : Good t) (h : t.follow? segments = some u) :
    Good u := by
  induction segments generalizing t with
  | nil => exact Option.some.inj h ▸ ht
  | cons segment segments ih =>
    obtain ⟨v, hv, h⟩ := Option.bind_eq_some_iff.mp h
    exact ih (inv.descend? ht hv) h

/-! ### Scopes -/

theorem resolveIn? {path : String} {head : List Char} {segments : List (List Char)}
    {levels : List Bindings} (hlevels : ∀ bindings ∈ levels, Entries.All Good bindings)
    (h : Scope.resolveIn? path head segments levels = some u) : Good u := by
  induction levels with
  | nil => cases h
  | cons bindings outer ih =>
    obtain ⟨hbindings, houter⟩ := List.forall_mem_cons.mp hlevels
    rw [Scope.resolveIn?] at h
    split at h
    · rename_i bound hbound
      exact Option.some.inj h ▸ hbindings.lookup hbound
    · split at h
      · cases h
      · split at h
        · exact ih houter h
        · rename_i root hroot
          obtain ⟨v, hv, h⟩ := Option.bind_eq_some_iff.mp h
          exact inv.follow? (inv.indexed? (hbindings.lookup hroot) hv) h

theorem resolve? {path : String} {scope : Scope} (hscope : scope.AllBound Good)
    (h : scope.resolve? path = some u) : Good u := by
  unfold Scope.resolve? at h
  split at h
  · cases h
  · exact inv.resolveIn? hscope h

theorem enterAll (names : List String) {types : List Ty} {scope : Scope}
    (htypes : ∀ t ∈ types, Good t) (hscope : scope.AllBound Good) :
    (scope.enterAll names types).AllBound Good := by
  induction names generalizing types scope with
  | nil => exact hscope
  | cons name names ih =>
    cases types with
    | nil => exact ih htypes (hscope.enter (inv.primitive rfl))
    | cons t ts =>
      obtain ⟨ht, hts⟩ := List.forall_mem_cons.mp htypes
      exact ih hts (hscope.enter ht)

/-! ### Matching arguments -/

/-- A match leaves only good types in the assignment, and a failure shows only good ones. -/
theorem accept {param actual : Ty} {σ : Assignment} (hactual : Good actual)
    (hσ : Entries.All Good σ) :
    Ends (Entries.All Good) (MatchFailure.Shows Good) (param.accept actual σ) := by
  induction param generalizing actual σ with
  | var name =>
    rw [Ty.accept]
    split
    · exact hσ.insert hactual
    · rename_i bound hbound
      split
      · rename_i refined hrefined
        exact hσ.insert (inv.refine? (hσ.lookup hbound) hactual hrefined)
      · exact ⟨hσ.lookup hbound, hactual⟩
  | array p ih =>
    cases actual with
    | array a =>
      rw [Ty.accept]
      exact ih (inv.array_iff.mp hactual) hσ
    | any =>
      rw [Ty.accept]
      split
      · exact ih hactual hσ
      · exact hσ
    | _ => exact Ty.fit_ends hσ
  | function ps r ihps ihr =>
    cases actual with
    | function as s =>
      obtain ⟨has, hs⟩ := inv.function_iff.mp hactual
      rw [Ty.accept]
      split
      · have hparams := Ty.acceptAll_ends ihps has hσ
        split
        · rename_i σ' heq
          rw [heq] at hparams
          exact ihr hs hparams
        · rename_i failure heq
          rw [heq] at hparams
          exact hparams
      · exact Ty.fit_ends hσ
    | _ => exact Ty.fit_ends hσ
  | string | number | integer | boolean | null | any | object _ _ _ | union _ _ =>
    exact Ty.fit_ends hσ

theorem checkArgument {sig : Signature} {position : Nat} {param actual : Ty} {σ : Assignment}
    {location : Option Location} (hparam : Declared param) (hactual : Good actual)
    (hσ : Entries.All Good σ) :
    Ends (Entries.All Good) (TypeError.Shows Good)
      (Typing.checkArgument sig position param actual σ location) := by
  have haccept : Ends (Entries.All Good) (MatchFailure.Shows Good) (param.accept actual σ) :=
    inv.accept hactual hσ
  unfold Typing.checkArgument
  split
  · exact List.forall_mem_singleton.mpr hactual
  · split
    · rename_i σ' heq
      rw [heq] at haccept
      exact haccept
    · rename_i σ' heq
      rw [heq] at haccept
      have hexpected : Good (param.ground σ') := inv.ground hparam haccept
      exact Ty.forall_mem_pair.mpr ⟨hexpected, hactual⟩
    · rename_i name bound found heq
      rw [heq] at haccept
      exact Ty.forall_mem_pair.mpr haccept

/-! ### Operators -/

theorem unaryType {op : UnaryOp} {location : Option Location} (ht : Good t) :
    Ends Good (TypeError.Shows Good) (Typing.unaryType op t location) := by
  have hshow : ∀ expected, Good expected → ∀ s ∈ [expected, t], Good s :=
    fun expected hexpected => Ty.forall_mem_pair.mpr ⟨hexpected, ht⟩
  cases op with
  | not =>
    unfold Typing.unaryType
    dsimp only
    split
    · exact inv.primitive rfl
    · exact hshow .boolean (inv.primitive rfl)
  | negate =>
    unfold Typing.unaryType
    dsimp only
    split
    · exact inv.primitive rfl
    · split
      · exact inv.primitive rfl
      · exact hshow .number (inv.primitive rfl)

theorem binaryType {op : BinaryOp} {left right : Ty} {location : Option Location}
    (hleft : Good left) (hright : Good right) :
    Ends Good (TypeError.Shows Good) (Typing.binaryType op left right location) := by
  have hshow : ∀ expected actual, Good expected → Good actual →
      ∀ s ∈ [expected, actual], Good s :=
    fun expected actual hexpected hactual => Ty.forall_mem_pair.mpr ⟨hexpected, hactual⟩
  unfold Typing.binaryType
  dsimp only
  split
  · exact inv.primitive rfl
  split
  · split
    · exact hshow .boolean left (inv.primitive rfl) hleft
    split
    · exact hshow .boolean right (inv.primitive rfl) hright
    · exact inv.primitive rfl
  split
  · exact inv.primitive rfl
  split
  · exact inv.primitive rfl
  split
  · exact hshow .number left (inv.primitive rfl) hleft
  split
  · exact hshow .number right (inv.primitive rfl) hright
  split
  · exact inv.primitive rfl
  · exact inv.primitive rfl

/-! ### Expressions -/

section Expressions

variable {library : Library} {scope : Scope} {sig : Signature} {location : Option Location}

/-- The parameters of a function written in place are not known by themselves. -/
theorem anys (names : List String) : ∀ p ∈ names.map fun _ => Ty.any, Good p := by
  intro p hp
  obtain ⟨_, _, rfl⟩ := List.mem_map.mp hp
  exact inv.primitive rfl

theorem elements? (ht : Good t) (h : t.elements? = some u) : Good u := by
  cases t with
  | array t => exact Option.some.inj h ▸ inv.array_iff.mp ht
  | any => exact Option.some.inj h ▸ ht
  | _ => cases h

theorem bindPlain {count position : Nat} {σ : Assignment} {args : List Expr}
    (hsig : ∀ p ∈ sig.params, Declared p)
    (hargs : ∀ arg ∈ args, Ends Good (TypeError.Shows Good) (Typing.infer library scope arg))
    (hσ : Entries.All Good σ) :
    Ends (Entries.All Good) (TypeError.Shows Good)
      (Typing.bindPlain library scope sig count location position σ args) := by
  induction args generalizing position σ with
  | nil => exact hσ
  | cons arg args ih =>
    obtain ⟨harg, hargs⟩ := List.forall_mem_cons.mp hargs
    rw [Typing.bindPlain]
    split
    · exact List.forall_mem_nil _
    · rename_i param hparam
      have hdeclared := hsig param (sig.mem_params_of_paramAt? hparam)
      split
      · exact ih hargs hσ
      · refine harg.bind fun actual hactual => ?_
        exact (inv.checkArgument hdeclared hactual hσ).bind fun σ' hσ' => ih hargs hσ'

theorem bindLambdas {position : Nat} {σ : Assignment} {args : List Expr}
    (hsig : ∀ p ∈ sig.params, Declared p)
    (hbodies : ∀ params body place, .lambda params body place ∈ args →
      ∀ inner : Scope, inner.AllBound Good →
        Ends Good (TypeError.Shows Good) (Typing.infer library inner body))
    (hscope : scope.AllBound Good) (hσ : Entries.All Good σ) :
    Ends (Entries.All Good) (TypeError.Shows Good)
      (Typing.bindLambdas library scope sig location position σ args) := by
  induction args generalizing position σ with
  | nil => exact hσ
  | cons arg args ih =>
    have hrest := fun params body place hmem =>
      hbodies params body place (List.mem_cons_of_mem _ hmem)
    cases arg with
    | lambda names body place =>
      rw [Typing.bindLambdas]
      split
      · rename_i params result hparam
        have hdeclared := hsig _ (sig.mem_params_of_paramAt? hparam)
        have hparams := inv.declaredParams hdeclared
        split
        · have hexpected := inv.ground hdeclared hσ
          have hactual : Good (.function (names.map fun _ => .any) .any) :=
            inv.function_iff.mpr ⟨inv.anys names, inv.primitive rfl⟩
          exact Ty.forall_mem_pair.mpr ⟨hexpected, hactual⟩
        · have htypes : ∀ t ∈ params.map fun p => p.ground σ, Good t := by
            intro t ht
            obtain ⟨p, hp, rfl⟩ := List.mem_map.mp ht
            exact inv.ground (hparams p hp) hσ
          have hbody := hbodies names body place List.mem_cons_self _ (inv.enterAll names htypes hscope)
          refine hbody.bind fun actual hactual => ?_
          exact (inv.checkArgument (inv.declaredResult hdeclared) hactual hσ).bind
            fun σ' hσ' => ih hrest hσ'
      · exact ih hrest hσ
    | _ => exact ih hrest hσ

/-- **Inference keeps its invariants.** If a property that inference preserves holds of the types that
the scope binds, it holds of the inferred type, or of every type in the error. -/
theorem infer {expr : Expr} (hlibrary : library.AllDeclared Declared)
    (hscope : scope.AllBound Good) :
    Ends Good (TypeError.Shows Good) (Typing.infer library scope expr) := by
  induction expr generalizing scope with
  | literal value location =>
    rw [Typing.infer]
    cases value <;> exact inv.primitive rfl
  | path path location =>
    rw [Typing.infer]
    split
    · rename_i t ht
      exact inv.resolve? hscope ht
    · exact List.forall_mem_nil _
  | member object property location ih =>
    rw [Typing.infer]
    refine (ih hscope).bind fun t ht => ?_
    split
    · rename_i selected hselected
      exact inv.descend? ht hselected
    · exact List.forall_mem_nil _
  | unary op operand location ih =>
    rw [Typing.infer]
    exact (ih hscope).bind fun t ht => inv.unaryType ht
  | binary op left right location ihl ihr =>
    rw [Typing.infer]
    exact (ihl hscope).bind fun l hl => (ihr hscope).bind fun r hr => inv.binaryType hl hr
  | conditional condition thenBranch elseBranch location ihc iht ihe =>
    rw [Typing.infer]
    refine (ihc hscope).bind fun c hc => ?_
    split
    · exact (iht hscope).bind fun t ht => (ihe hscope).bind fun e he => inv.join ht he
    · exact List.forall_mem_singleton.mpr hc
  | call name args location ihargs ihbodies =>
    rw [Typing.infer]
    split
    · exact List.forall_mem_nil _
    · rename_i sig hsig
      obtain ⟨hparams, hresult⟩ := hlibrary name sig hsig
      split
      · refine (inv.bindPlain hparams (fun arg harg => ihargs arg harg hscope) .nil).bind
          fun σ hσ => ?_
        refine (inv.bindLambdas hparams (fun params body place hmem _ hinner =>
          ihbodies params body place hmem hinner) hscope hσ).bind fun σ' hσ' => ?_
        exact inv.ground hresult hσ'
      · exact List.forall_mem_nil _
  | map collection params body location ihc ihb =>
    rw [Typing.infer]
    refine (ihc hscope).bind fun input hinput => ?_
    split
    · exact List.forall_mem_singleton.mpr hinput
    · rename_i element helement
      have hinner := inv.enterAll params
        (List.forall_mem_singleton.mpr (inv.elements? hinput helement)) hscope
      exact (ihb hinner).bind fun result hresult => inv.array_iff.mpr hresult
  | filter collection params body location ihc ihb =>
    rw [Typing.infer]
    refine (ihc hscope).bind fun input hinput => ?_
    split
    · exact List.forall_mem_singleton.mpr hinput
    · rename_i element helement
      have hgood := inv.elements? hinput helement
      have hinner := inv.enterAll params (List.forall_mem_singleton.mpr hgood) hscope
      refine (ihb hinner).bind fun result hresult => ?_
      split
      · exact inv.array_iff.mpr hgood
      · exact List.forall_mem_singleton.mpr hresult
  | lambda params body location ih =>
    rw [Typing.infer]
    have hinner := inv.enterAll params (List.forall_mem_nil _) hscope
    refine (ih hinner).bind fun result hresult => ?_
    exact inv.function_iff.mpr ⟨inv.anys params, hresult⟩
  | letIn name value body location ihv ihb =>
    rw [Typing.infer]
    exact (ihv hscope).bind fun t ht => ihb (hscope.enter ht)
  | object entries location ih =>
    rw [Typing.infer]
    refine (Typing.inferEntries_ends fun key value hmem => ih key value hmem hscope).bind ?_
    exact fun ps hps => inv.closedObject hps
  | array elements location ih =>
    rw [Typing.infer]
    refine (Typing.inferAll_ends fun element hmem => ih element hmem hscope).bind ?_
    exact fun types htypes => inv.array_iff.mpr (inv.elementOf htypes)

end Expressions

end InferenceInvariant

end SchemaInfer
