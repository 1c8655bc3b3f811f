import SchemaInfer.Proofs.InferenceInvariant
import SchemaInfer.Proofs.PathText

/-!
# Bindings that no path uses

Inference looks at a scope only to resolve the paths of an expression. Two scopes in which these paths lead
to the same types therefore infer the same, and they still agree after the same name has been entered in
both: a level either settles a path by itself or leaves it to the levels around it. So it is enough to
look at one level to see that a binding does not matter, wherever in a chain of scopes it ends up. A level
passes on a path that it does not bind if it can read the first segment and does not bind its name. It
does not pass on a path whose first segment it cannot read.
-/

namespace SchemaInfer

/-! ### The paths of an expression -/

namespace Expr

mutual

/-- The paths that stand in an expression. -/
def paths : Expr → List String
  | literal _ _ => []
  | path p _ => [p]
  | member e _ _ => e.paths
  | unary _ e _ => e.paths
  | binary _ l r _ => l.paths ++ r.paths
  | conditional c t e _ => c.paths ++ t.paths ++ e.paths
  | call _ args _ => pathsAll args
  | map c _ b _ => c.paths ++ b.paths
  | filter c _ b _ => c.paths ++ b.paths
  | lambda _ b _ => b.paths
  | letIn _ v b _ => v.paths ++ b.paths
  | object es _ => pathsEntries es
  | array es _ => pathsAll es

def pathsAll : List Expr → List String
  | [] => []
  | e :: es => e.paths ++ pathsAll es

def pathsEntries : List (String × Expr) → List String
  | [] => []
  | (_, e) :: es => e.paths ++ pathsEntries es

end

theorem pathsAll_eq_flatMap {es : List Expr} : pathsAll es = es.flatMap paths := by
  induction es with
  | nil => rfl
  | cons e es ih => rw [pathsAll, ih, List.flatMap_cons]

theorem pathsEntries_eq_flatMap {es : List (String × Expr)} :
    pathsEntries es = es.flatMap fun entry => entry.2.paths := by
  induction es with
  | nil => rfl
  | cons entry es ih =>
    obtain ⟨key, e⟩ := entry
    rw [pathsEntries, ih, List.flatMap_cons]

end Expr

/-! ### One level

A level that binds the whole path settles it. One that cannot read its first segment fails, and one that
binds the first name goes on from there. All others leave the path to the levels around them. -/

namespace Scope

section Level

variable {path : String} {head : List Char} {segments : List (List Char)} {bindings : Bindings}
  {outer : List Bindings} {s : Segment}

theorem resolveIn?_of_lookup {t : Ty} (h : bindings.lookup path = some t) :
    resolveIn? path head segments (bindings :: outer) = some t := by
  rw [resolveIn?, h]

theorem resolveIn?_of_unreadable (h : bindings.lookup path = none)
    (hread : Segment.ofChars? head = none) :
    resolveIn? path head segments (bindings :: outer) = none := by
  rw [resolveIn?, h]
  dsimp only
  rw [hread]

theorem resolveIn?_of_root {root : Ty} (h : bindings.lookup path = none)
    (hread : Segment.ofChars? head = some s) (hroot : bindings.lookup s.name = some root) :
    resolveIn? path head segments (bindings :: outer) =
      (root.indexed? s.indexes).bind (Ty.follow? segments) := by
  rw [resolveIn?, h]
  dsimp only
  rw [hread]
  dsimp only
  rw [hroot]

theorem resolveIn?_of_passed (h : bindings.lookup path = none)
    (hread : Segment.ofChars? head = some s) (hroot : bindings.lookup s.name = none) :
    resolveIn? path head segments (bindings :: outer) = resolveIn? path head segments outer := by
  rw [resolveIn?, h]
  dsimp only
  rw [hread]
  dsimp only
  rw [hroot]

end Level

/-! ### Scopes that agree -/

variable {scope scope₁ scope₂ : Scope} {name path : String} {t : Ty}

/-- The paths lead to the same types in both scopes. -/
def AgreeOn (paths : List String) (scope₁ scope₂ : Scope) : Prop :=
  ∀ path ∈ paths, scope₁.resolve? path = scope₂.resolve? path

theorem levels_enter : (scope.enter name t).levels = [(name, t)] :: scope.levels := rfl

theorem resolve?_enter_congr (h : scope₁.resolve? path = scope₂.resolve? path) :
    (scope₁.enter name t).resolve? path = (scope₂.enter name t).resolve? path := by
  unfold resolve? at h ⊢
  split at h
  · rfl
  · rw [levels_enter, levels_enter, resolveIn?, resolveIn?, h]

namespace AgreeOn

variable {paths more : List String}

theorem of_flatMap {α : Type} {f : α → List String} {xs : List α} {x : α}
    (h : AgreeOn (xs.flatMap f) scope₁ scope₂) (hx : x ∈ xs) : AgreeOn (f x) scope₁ scope₂ :=
  fun path hpath => h path (List.mem_flatMap.mpr ⟨x, hx, hpath⟩)

theorem append_iff : AgreeOn (paths ++ more) scope₁ scope₂ ↔
    AgreeOn paths scope₁ scope₂ ∧ AgreeOn more scope₁ scope₂ :=
  List.forall_mem_append

theorem enter (h : AgreeOn paths scope₁ scope₂) :
    AgreeOn paths (scope₁.enter name t) (scope₂.enter name t) :=
  fun path hpath => resolve?_enter_congr (h path hpath)

theorem enterAll {names : List String} {types : List Ty} (h : AgreeOn paths scope₁ scope₂) :
    AgreeOn paths (scope₁.enterAll names types) (scope₂.enterAll names types) := by
  induction names generalizing types scope₁ scope₂ with
  | nil => exact h
  | cons name names ih =>
    cases types with
    | nil => exact ih h.enter
    | cons t ts => exact ih h.enter

end AgreeOn

end Scope

/-! ### Inference in scopes that agree -/

namespace Typing

variable {library : Library} {scope scope₁ scope₂ : Scope} {sig : Signature}
  {location : Option Location}

theorem inferAll_congr {es : List Expr}
    (h : ∀ e ∈ es, infer library scope₁ e = infer library scope₂ e) :
    inferAll library scope₁ es = inferAll library scope₂ es := by
  induction es with
  | nil => rfl
  | cons e es ih =>
    obtain ⟨he, hes⟩ := List.forall_mem_cons.mp h
    rw [inferAll, inferAll, he, ih hes]

theorem inferEntries_congr {entries : List (String × Expr)}
    (h : ∀ key e, (key, e) ∈ entries → infer library scope₁ e = infer library scope₂ e) :
    inferEntries library scope₁ entries = inferEntries library scope₂ entries := by
  induction entries with
  | nil => rfl
  | cons entry entries ih =>
    obtain ⟨key, e⟩ := entry
    obtain ⟨he, hentries⟩ := Entries.forall_mem_cons_iff.mp h
    rw [inferEntries, inferEntries, he, ih hentries]

theorem bindPlain_congr {count position : Nat} {σ : Assignment} {args : List Expr}
    (h : ∀ arg ∈ args, infer library scope₁ arg = infer library scope₂ arg) :
    bindPlain library scope₁ sig count location position σ args =
      bindPlain library scope₂ sig count location position σ args := by
  induction args generalizing position σ with
  | nil => rfl
  | cons arg args ih =>
    obtain ⟨harg, hargs⟩ := List.forall_mem_cons.mp h
    rw [bindPlain, bindPlain, harg]
    simp only [ih hargs]

theorem bindLambdas_congr {position : Nat} {σ : Assignment} {args : List Expr}
    (h : ∀ names body place, .lambda names body place ∈ args → ∀ types,
      infer library (scope₁.enterAll names types) body =
        infer library (scope₂.enterAll names types) body) :
    bindLambdas library scope₁ sig location position σ args =
      bindLambdas library scope₂ sig location position σ args := by
  induction args generalizing position σ with
  | nil => rfl
  | cons arg args ih =>
    have hargs := fun names body place hmem => h names body place (List.mem_cons_of_mem _ hmem)
    cases arg with
    | lambda names body place =>
      have hbody := h names body place List.mem_cons_self
      rw [bindLambdas, bindLambdas]
      simp only [hbody, ih hargs]
    | _ => exact ih hargs

/-- **Inference looks at the paths of the expression only.** Where they lead to the same types in two
scopes, the inferred types and the errors are the same. -/
theorem infer_congr {e : Expr} (h : Scope.AgreeOn e.paths scope₁ scope₂) :
    infer library scope₁ e = infer library scope₂ e := by
  induction e generalizing scope₁ scope₂ with
  | literal value location => rfl
  | path path location => rw [infer, infer, h path (List.mem_singleton_self path)]
  | member object property location ih => rw [infer, infer, ih h]
  | unary op operand location ih => rw [infer, infer, ih h]
  | binary op left right location ihl ihr =>
    obtain ⟨hl, hr⟩ := Scope.AgreeOn.append_iff.mp h
    rw [infer, infer, ihl hl, ihr hr]
  | conditional condition thenBranch elseBranch location ihc iht ihe =>
    obtain ⟨hct, he⟩ := Scope.AgreeOn.append_iff.mp h
    obtain ⟨hc, ht⟩ := Scope.AgreeOn.append_iff.mp hct
    rw [infer, infer, ihc hc, iht ht, ihe he]
  | call name args location ihargs ihbodies =>
    rw [Expr.paths, Expr.pathsAll_eq_flatMap] at h
    have hargs : ∀ arg ∈ args, Scope.AgreeOn arg.paths scope₁ scope₂ :=
      fun arg harg => h.of_flatMap harg
    have hplain := fun arg harg => ihargs arg harg (hargs arg harg)
    have hbodies : ∀ names body place, .lambda names body place ∈ args → ∀ types,
        infer library (scope₁.enterAll names types) body =
          infer library (scope₂.enterAll names types) body :=
      fun names body place hmem types => ihbodies names body place hmem (hargs _ hmem).enterAll
    rw [infer, infer]
    simp only [bindPlain_congr hplain, bindLambdas_congr hbodies]
  | map collection params body location ihc ihb =>
    obtain ⟨hc, hb⟩ := Scope.AgreeOn.append_iff.mp h
    rw [infer, infer, ihc hc]
    simp only [ihb hb.enterAll]
  | filter collection params body location ihc ihb =>
    obtain ⟨hc, hb⟩ := Scope.AgreeOn.append_iff.mp h
    rw [infer, infer, ihc hc]
    simp only [ihb hb.enterAll]
  | lambda params body location ih => rw [infer, infer, ih h.enterAll]
  | letIn name value body location ihv ihb =>
    obtain ⟨hv, hb⟩ := Scope.AgreeOn.append_iff.mp h
    rw [infer, infer, ihv hv]
    simp only [ihb hb.enter]
  | object entries location ih =>
    rw [Expr.paths, Expr.pathsEntries_eq_flatMap] at h
    have hentries : ∀ key e, (key, e) ∈ entries → infer library scope₁ e = infer library scope₂ e :=
      fun key e hmem => ih key e hmem (h.of_flatMap hmem)
    rw [infer, infer, inferEntries_congr hentries]
  | array elements location ih =>
    rw [Expr.paths, Expr.pathsAll_eq_flatMap] at h
    have helements : ∀ e ∈ elements, infer library scope₁ e = infer library scope₂ e :=
      fun e hmem => ih e hmem (h.of_flatMap hmem)
    rw [infer, infer, inferAll_congr helements]

end Typing

/-! ### A name that is not used -/

/-- A path that has nothing to do with a name: it is not the name itself, and it starts with another name,
which index suffixes may follow. -/
def Avoids (name path : String) : Prop :=
  path ≠ name ∧ ∃ start indexes, Segment.IsText (Segment.first path) start indexes ∧ start ≠ name

theorem avoids_iff {name path : String} : Avoids name path ↔
    path ≠ name ∧ ∃ s, Segment.ofChars? (Segment.first path) = some s ∧ s.name ≠ name := by
  apply and_congr_right
  intro _
  constructor
  · rintro ⟨start, indexes, htext, hne⟩
    exact ⟨⟨start, indexes.length⟩, Segment.ofChars?_eq_some_iff.mpr ⟨indexes, htext, rfl⟩, hne⟩
  · rintro ⟨s, hread, hne⟩
    obtain ⟨indexes, htext, _⟩ := Segment.ofChars?_eq_some_iff.mp hread
    exact ⟨s.name, indexes, htext, hne⟩

instance {name path : String} : Decidable (Avoids name path) :=
  decidable_of_iff (path ≠ name ∧
      (Segment.ofChars? (Segment.first path)).any (fun s => s.name != name) = true)
    (by simp [avoids_iff, Option.any_eq_true])

theorem Scope.resolve?_enter_of_avoids {scope : Scope} {name path : String} {t : Ty}
    (h : Avoids name path) : (scope.enter name t).resolve? path = scope.resolve? path := by
  obtain ⟨hpath, s, hread, hname⟩ := avoids_iff.mp h
  obtain ⟨segments, hsplit⟩ := Text.splitAt_eq_cons '.' path.toList
  have hlookup : ∀ other, other ≠ name → List.lookup other [(name, t)] = none := by
    intro other hne
    rw [List.lookup_cons, beq_false_of_ne hne, List.lookup_nil]
  unfold resolve?
  rw [hsplit, levels_enter]
  exact resolveIn?_of_passed (hlookup path hpath) hread (hlookup s.name hname)

/-- **Unused bindings do not change inference.** Entering a name that no path of the expression has to do
with gives the same type, or the same error. -/
theorem Typing.infer_enter_of_avoids {library : Library} {scope : Scope} {name : String} {t : Ty}
    {e : Expr} (h : ∀ path ∈ e.paths, Avoids name path) :
    infer library (scope.enter name t) e = infer library scope e := by
  apply infer_congr
  intro path hpath
  exact Scope.resolve?_enter_of_avoids (h path hpath)

/-- The name stands in the path as a property, and two scopes come in between. -/
theorem Typing.infer_enter_of_avoids_below_scopes :
    let order : Ty := .object [("n", .mandatory (.array .integer))] false
    let scope : Scope := (Scope.empty.bind "orders" (.array order)).bind "rates" (.array .number)
    let e : Expr := .letIn "rate" (.path "rates[0]" none)
      (.map (.path "orders" none) ["order"]
        (.binary .less (.path "order.n[1]" none) (.path "rate" none) none) none) none
    (∀ path ∈ e.paths, Avoids "n" path) ∧
      infer .empty scope e = .ok (.array .boolean) ∧
      infer .empty (scope.enter "n" .string) e = .ok (.array .boolean) := by
  intro order scope e
  have havoids : ∀ path ∈ e.paths, Avoids "n" path := by decide
  have hinfer : infer .empty scope e = .ok (.array .boolean) := by rfl
  exact ⟨havoids, hinfer, (infer_enter_of_avoids havoids).trans hinfer⟩

end SchemaInfer
