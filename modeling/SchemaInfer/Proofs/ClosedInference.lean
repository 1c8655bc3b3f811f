import SchemaInfer.Proofs.InferenceInvariant
import SchemaInfer.Proofs.Unions

/-!
# No type variable escapes inference

Type variables stand in signatures only. A call puts types for the ones that its arguments determine
and `any` for the others (`Ty.ground`), which leaves none: the test for variables, the list of
variables and substitution agree on where variables stand. So being closed is an invariant of
inference, whatever the signatures of the library look like.
-/

namespace SchemaInfer

namespace Ty

variable {t : Ty} {ts : List Ty} {ps : Properties} {σ : Assignment}

/-! ### Closed types -/

/-- No type variable stands anywhere in the type. -/
def Closed (t : Ty) : Prop :=
  t.Everywhere fun s => s.isVar = false

instance : DecidablePred Closed :=
  inferInstanceAs (DecidablePred (Everywhere fun s => s.isVar = false))

namespace Closed

theorem of_isPrimitive (h : t.isPrimitive = true) : t.Closed := by
  refine Everywhere.of_isPrimitive h ?_
  cases t with
  | var name => cases h
  | _ => rfl

theorem not_var {name : String} : ¬ (var name).Closed := by
  intro h
  cases h.head

theorem array_iff : (array t).Closed ↔ t.Closed := by
  simp [Closed, isVar]

theorem object_iff {isOpen : Bool} :
    (object ps isOpen).Closed ↔ Entries.All (fun p => p.ty.Closed) ps := by
  simp [Closed, isVar, Entries.All]

theorem union_iff : (union ts).Closed ↔ ∀ t ∈ ts, t.Closed := by
  simp [Closed, isVar]

theorem function_iff {r : Ty} :
    (function ts r).Closed ↔ (∀ t ∈ ts, t.Closed) ∧ r.Closed := by
  simp [Closed, isVar]

theorem oneOf (hts : ∀ t ∈ ts, t.Closed) : (oneOf ts).Closed :=
  Everywhere.oneOf rfl (fun _ => rfl) hts

end Closed

/-! ### Where variables stand -/

theorem anyHasVar_eq_false_iff : anyHasVar ts = false ↔ ∀ t ∈ ts, t.hasVar = false := by
  induction ts with
  | nil => simp [anyHasVar]
  | cons t ts ih => simp [anyHasVar, ih]

theorem anyPropertyHasVar_eq_false_iff :
    anyPropertyHasVar ps = false ↔ Entries.All (fun p => p.ty.hasVar = false) ps := by
  induction ps with
  | nil => exact ⟨fun _ => .nil, fun _ => rfl⟩
  | cons entry ps ih =>
    obtain ⟨name, p⟩ := entry
    rw [anyPropertyHasVar, Bool.or_eq_false_iff, ih, Entries.All.cons_iff]

/-- The test finds exactly the types with variables. -/
theorem hasVar_eq_false_iff : t.hasVar = false ↔ t.Closed := by
  induction t with
  | string | number | integer | boolean | null | any =>
    exact ⟨fun _ => .of_isPrimitive rfl, fun _ => rfl⟩
  | var name =>
    constructor
    · intro h
      cases h
    · intro h
      exact absurd h Closed.not_var
  | array t ih => rw [hasVar, ih, Closed.array_iff]
  | object ps isOpen ih =>
    rw [hasVar, anyPropertyHasVar_eq_false_iff, Closed.object_iff]
    exact forall_congr' fun name => forall_congr' fun p => forall_congr' (ih name p)
  | union ms ih =>
    rw [hasVar, anyHasVar_eq_false_iff, Closed.union_iff]
    exact forall₂_congr ih
  | function params r ihparams ihr =>
    rw [hasVar, Bool.or_eq_false_iff, anyHasVar_eq_false_iff, ihr, Closed.function_iff]
    exact and_congr_left fun _ => forall₂_congr ihparams

theorem varsAll_eq_flatMap (ts : List Ty) : varsAll ts = ts.flatMap vars := by
  induction ts with
  | nil => rfl
  | cons t ts ih => rw [varsAll, ih, List.flatMap_cons]

theorem propertyVars_eq_flatMap (ps : Properties) :
    propertyVars ps = ps.flatMap fun entry => entry.2.ty.vars := by
  induction ps with
  | nil => rfl
  | cons entry ps ih => rw [propertyVars, ih, List.flatMap_cons]

/-! ### Substitution -/

theorem substAll_eq_map (σ : Assignment) (ts : List Ty) : substAll σ ts = ts.map (subst σ) := by
  induction ts with
  | nil => rfl
  | cons t ts ih => rw [substAll, ih, List.map_cons]

theorem substProperties_eq_map (σ : Assignment) (ps : Properties) :
    substProperties σ ps =
      ps.map fun entry => (entry.1, { entry.2 with ty := entry.2.ty.subst σ }) := by
  induction ps with
  | nil => rfl
  | cons entry ps ih => rw [substProperties, ih, List.map_cons]

/-- An assignment gives every variable of a list a closed type. -/
def Closes (σ : Assignment) (names : List String) : Prop :=
  ∀ name ∈ names, ∃ s, σ.lookup name = some s ∧ s.Closed

theorem Closes.mono {names names' : List String} (h : Closes σ names)
    (hsub : ∀ name ∈ names', name ∈ names) : Closes σ names' :=
  fun name hname => h name (hsub name hname)

theorem closed_subst (hσ : Closes σ t.vars) : (t.subst σ).Closed := by
  induction t with
  | string | number | integer | boolean | null | any => exact .of_isPrimitive rfl
  | var name =>
    obtain ⟨s, hlookup, hs⟩ := hσ name (List.mem_singleton_self name)
    rw [subst, hlookup]
    exact hs
  | array t ih =>
    rw [subst, Closed.array_iff]
    exact ih hσ
  | object ps isOpen ih =>
    rw [vars, propertyVars_eq_flatMap] at hσ
    rw [subst, Closed.object_iff, substProperties_eq_map]
    intro key q hq
    obtain ⟨⟨_, p⟩, hp, heq⟩ := List.mem_map.mp hq
    obtain ⟨rfl, rfl⟩ := Prod.mk.inj heq
    exact ih _ p hp (hσ.mono fun name hname => List.mem_flatMap.mpr ⟨_, hp, hname⟩)
  | union ms ih =>
    rw [vars, varsAll_eq_flatMap] at hσ
    rw [subst, substAll_eq_map]
    apply Closed.oneOf
    intro s hs
    obtain ⟨m, hm, rfl⟩ := List.mem_map.mp hs
    exact ih m hm (hσ.mono fun name hname => List.mem_flatMap.mpr ⟨m, hm, hname⟩)
  | function params r ihparams ihr =>
    rw [vars, varsAll_eq_flatMap] at hσ
    rw [subst, Closed.function_iff, substAll_eq_map]
    constructor
    · intro s hs
      obtain ⟨p, hp, rfl⟩ := List.mem_map.mp hs
      apply ihparams p hp
      apply hσ.mono
      exact fun name hname => List.mem_append_left _ (List.mem_flatMap.mpr ⟨p, hp, hname⟩)
    · exact ihr (hσ.mono fun name hname => List.mem_append_right _ hname)

theorem lookup_anyFor {name : String} {names : List String} (h : name ∈ names) :
    (anyFor names).lookup name = some any := by
  induction names with
  | nil => cases h
  | cons first names ih =>
    rw [anyFor, List.map_cons, List.lookup_cons]
    by_cases heq : name = first
    · rw [heq, beq_self_eq_true]
    · rw [beq_false_of_ne heq]
      exact ih (List.mem_of_ne_of_mem heq h)

theorem closes_anyFor (names : List String) : Closes (anyFor names) names :=
  fun _ hname => ⟨any, lookup_anyFor hname, .of_isPrimitive rfl⟩

/-- Putting types for variables and `any` for those that are left leaves no variable. The first
round may bring in variables of its own; the second looks for them in its result. -/
theorem closed_ground (σ : Assignment) (t : Ty) : (t.ground σ).Closed := by
  unfold ground
  by_cases hvar : (t.subst σ).hasVar = true
  · rw [if_pos hvar]
    exact closed_subst (closes_anyFor _)
  · rw [if_neg hvar]
    exact hasVar_eq_false_iff.mp (Bool.eq_false_iff.mpr hvar)

end Ty

/-! ### Inference -/

theorem Library.allDeclared_true (library : Library) : library.AllDeclared fun _ => True :=
  fun _ _ _ => ⟨fun _ _ => trivial, trivial⟩

theorem closed_invariant : InferenceInvariant Ty.Closed fun _ => True where
  primitive := .of_isPrimitive
  array_iff := Ty.Closed.array_iff
  function_iff := Ty.Closed.function_iff
  property hobject hmem := Ty.Closed.object_iff.mp hobject _ _ hmem
  closedObject hps := Ty.Closed.object_iff.mpr (.ofList hps)
  member hunion hmem := Ty.Closed.union_iff.mp hunion _ hmem
  oneOf := Ty.Closed.oneOf
  declaredParams _ _ _ := trivial
  declaredResult _ := trivial
  ground _ _ := Ty.closed_ground _ _

/-- **No type variable escapes inference.** In a scope that binds closed types, and with signatures of
any form, the inferred type is closed, and so is every type that a type error shows. -/
theorem infer_closed (library : Library) {scope : Scope} (hscope : scope.AllBound Ty.Closed)
    (expr : Expr) :
    (∀ t, Typing.infer library scope expr = .ok t → t.Closed) ∧
      ∀ error, Typing.infer library scope expr = .error error →
        ∀ t ∈ error.cause.types, t.Closed := by
  have hends : Ends Ty.Closed (TypeError.Shows Ty.Closed) (Typing.infer library scope expr) :=
    closed_invariant.infer library.allDeclared_true hscope
  constructor
  · intro t ht
    rw [ht] at hends
    exact hends
  · intro error herror
    rw [herror] at hends
    exact hends

/-- Of the three variables of the signature, the arguments determine two; the third becomes `any`. -/
theorem infer_closed_of_undetermined :
    let transform : Signature :=
      .fixed "transform" [.array (.var "T"), .function [.var "T"] (.var "U")]
        (.union [.array (.var "U"), .var "V"])
    let scope : Scope := (Scope.empty.bind "items" (.array .integer)).enter "scale" .number
    let expr : Expr := .call "transform"
      [.path "items" none, .lambda ["item"] (.path "item" none) none] none
    scope.AllBound Ty.Closed ∧
      Typing.infer (.ofSignatures [transform]) scope expr = .ok (.union [.array .integer, .any]) ∧
      (Ty.union [.array .integer, .any]).Closed := by
  intro transform scope expr
  have hscope : scope.AllBound Ty.Closed := by decide
  have hinfer : Typing.infer (.ofSignatures [transform]) scope expr =
      .ok (.union [.array .integer, .any]) := rfl
  exact ⟨hscope, hinfer, (infer_closed _ hscope expr).1 _ hinfer⟩

end SchemaInfer
