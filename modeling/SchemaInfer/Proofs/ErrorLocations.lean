import SchemaInfer.Library.Standard
import SchemaInfer.Proofs.InferenceInvariant

/-!
# Locations label errors and nothing else

The nodes of an expression carry places in a source text, and inference hands the place of the node at hand
to whatever may fail there. Moving every node to another place therefore moves the error, if there is one,
and changes nothing else: each step of inference commutes with the move, on the outcome of each part as
much as on its own failures (`Typing.infer_relocated`). That an error stands at a node of the expression
follows: a move that leaves the nodes where they are leaves the error where it is, wherever it takes all
other places.
-/

namespace SchemaInfer

variable {f : Option Location → Option Location}

/-! ### Moving expressions and errors -/

namespace Expr

mutual

/-- The expression with every node moved to another place. -/
def relocated (f : Option Location → Option Location) : Expr → Expr
  | literal value l => literal value (f l)
  | path p l => path p (f l)
  | member e property l => member (e.relocated f) property (f l)
  | unary op e l => unary op (e.relocated f) (f l)
  | binary op left right l => binary op (left.relocated f) (right.relocated f) (f l)
  | conditional c t e l => conditional (c.relocated f) (t.relocated f) (e.relocated f) (f l)
  | call name args l => call name (relocatedAll f args) (f l)
  | map c params body l => map (c.relocated f) params (body.relocated f) (f l)
  | filter c params body l => filter (c.relocated f) params (body.relocated f) (f l)
  | lambda params body l => lambda params (body.relocated f) (f l)
  | letIn name value body l => letIn name (value.relocated f) (body.relocated f) (f l)
  | object entries l => object (relocatedEntries f entries) (f l)
  | array elements l => array (relocatedAll f elements) (f l)

def relocatedAll (f : Option Location → Option Location) : List Expr → List Expr
  | [] => []
  | e :: es => e.relocated f :: relocatedAll f es

def relocatedEntries (f : Option Location → Option Location) :
    List (String × Expr) → List (String × Expr)
  | [] => []
  | (key, e) :: es => (key, e.relocated f) :: relocatedEntries f es

end

mutual

/-- The places of the nodes of an expression. -/
def places : Expr → List (Option Location)
  | literal _ l => [l]
  | path _ l => [l]
  | member e _ l => l :: e.places
  | unary _ e l => l :: e.places
  | binary _ left right l => l :: (left.places ++ right.places)
  | conditional c t e l => l :: (c.places ++ t.places ++ e.places)
  | call _ args l => l :: placesAll args
  | map c _ body l => l :: (c.places ++ body.places)
  | filter c _ body l => l :: (c.places ++ body.places)
  | lambda _ body l => l :: body.places
  | letIn _ value body l => l :: (value.places ++ body.places)
  | object entries l => l :: placesEntries entries
  | array elements l => l :: placesAll elements

def placesAll : List Expr → List (Option Location)
  | [] => []
  | e :: es => e.places ++ placesAll es

def placesEntries : List (String × Expr) → List (Option Location)
  | [] => []
  | (_, e) :: es => e.places ++ placesEntries es

end

theorem length_relocatedAll {es : List Expr} : (relocatedAll f es).length = es.length := by
  induction es with
  | nil => rfl
  | cons e es ih => rw [relocatedAll, List.length_cons, ih, List.length_cons]

theorem isLambda_relocated {e : Expr} : (e.relocated f).isLambda = e.isLambda := by
  cases e <;> rfl

/-- What messages show of an expression does not depend on where it stands. -/
theorem sourceText_relocated {e : Expr} : (e.relocated f).sourceText = e.sourceText := by
  induction e with
  | member object property location ih => rw [relocated, sourceText, sourceText, ih]
  | _ => rfl

theorem relocatedAll_eq_self {es : List Expr}
    (hparts : ∀ e ∈ es, (∀ l ∈ e.places, f l = l) → e.relocated f = e)
    (h : ∀ l ∈ placesAll es, f l = l) : relocatedAll f es = es := by
  induction es with
  | nil => rfl
  | cons e es ih =>
    obtain ⟨hpart, hparts⟩ := List.forall_mem_cons.mp hparts
    obtain ⟨he, hes⟩ := List.forall_mem_append.mp h
    rw [relocatedAll, hpart he, ih hparts hes]

theorem relocatedEntries_eq_self {entries : List (String × Expr)}
    (hparts : ∀ key e, (key, e) ∈ entries → (∀ l ∈ e.places, f l = l) → e.relocated f = e)
    (h : ∀ l ∈ placesEntries entries, f l = l) : relocatedEntries f entries = entries := by
  induction entries with
  | nil => rfl
  | cons entry entries ih =>
    obtain ⟨key, e⟩ := entry
    obtain ⟨hpart, hparts⟩ := Entries.forall_mem_cons_iff.mp hparts
    obtain ⟨he, hentries⟩ := List.forall_mem_append.mp h
    rw [relocatedEntries, hpart he, ih hparts hentries]

/-- A move that leaves every node where it is changes nothing. -/
theorem relocated_eq_self {e : Expr} (h : ∀ l ∈ e.places, f l = l) : e.relocated f = e := by
  induction e with
  | literal _ l | path _ l => rw [relocated, h l (List.mem_singleton_self l)]
  | member e _ l ih | unary _ e l ih | lambda _ e l ih =>
    obtain ⟨hl, he⟩ := List.forall_mem_cons.mp h
    rw [relocated, hl, ih he]
  | binary _ e₁ e₂ l ih₁ ih₂ | map e₁ _ e₂ l ih₁ ih₂ | filter e₁ _ e₂ l ih₁ ih₂
  | letIn _ e₁ e₂ l ih₁ ih₂ =>
    obtain ⟨hl, hparts⟩ := List.forall_mem_cons.mp h
    obtain ⟨h₁, h₂⟩ := List.forall_mem_append.mp hparts
    rw [relocated, hl, ih₁ h₁, ih₂ h₂]
  | conditional c t e l ihc iht ihe =>
    obtain ⟨hl, hparts⟩ := List.forall_mem_cons.mp h
    obtain ⟨hct, he⟩ := List.forall_mem_append.mp hparts
    obtain ⟨hc, ht⟩ := List.forall_mem_append.mp hct
    rw [relocated, hl, ihc hc, iht ht, ihe he]
  | call _ args l ihargs _ =>
    obtain ⟨hl, hargs⟩ := List.forall_mem_cons.mp h
    rw [relocated, hl, relocatedAll_eq_self ihargs hargs]
  | object entries l ih =>
    obtain ⟨hl, hentries⟩ := List.forall_mem_cons.mp h
    rw [relocated, hl, relocatedEntries_eq_self ih hentries]
  | array elements l ih =>
    obtain ⟨hl, helements⟩ := List.forall_mem_cons.mp h
    rw [relocated, hl, relocatedAll_eq_self ih helements]

end Expr

/-- The error at another place. -/
def TypeError.relocated (f : Option Location → Option Location) (error : TypeError) : TypeError :=
  { error with location := f error.location }

namespace Typing

/-- The outcome with its error, if it is one, moved to another place. -/
def relabel {α : Type} (f : Option Location → Option Location) (x : Except TypeError α) :
    Except TypeError α :=
  x.mapError (TypeError.relocated f)

variable {α β : Type} {library : Library} {scope : Scope} {sig : Signature}
  {location : Option Location}

@[simp] theorem relabel_ok {value : α} : relabel f (.ok value) = .ok value := rfl

@[simp] theorem relabel_fail {cause : TypeError.Cause} :
    relabel f (fail cause location : Except TypeError α) = fail cause (f location) := rfl

theorem relabel_bind {x : Except TypeError α} {next : α → Except TypeError β} :
    relabel f (x >>= next) = relabel f x >>= fun value => relabel f (next value) := by
  cases x <;> rfl

/-! ### Operators and arguments -/

theorem unaryType_relocated {op : UnaryOp} {t : Ty} :
    unaryType op t (f location) = relabel f (unaryType op t location) := by
  cases op with
  | not =>
    simp only [unaryType]
    split <;> rfl
  | negate =>
    simp only [unaryType]
    split
    · rfl
    · split <;> rfl

theorem binaryType_relocated {op : BinaryOp} {left right : Ty} :
    binaryType op left right (f location) = relabel f (binaryType op left right location) := by
  simp only [binaryType, apply_ite (relabel f), relabel_ok, relabel_fail]

theorem checkArgument_relocated {position : Nat} {param actual : Ty} {σ : Assignment} :
    checkArgument sig position param actual σ (f location) =
      relabel f (checkArgument sig position param actual σ location) := by
  unfold checkArgument
  split
  · rfl
  · split <;> rfl

/-! ### Lists of expressions -/

theorem inferAll_relocated {es : List Expr}
    (h : ∀ e ∈ es, infer library scope (e.relocated f) = relabel f (infer library scope e)) :
    inferAll library scope (Expr.relocatedAll f es) = relabel f (inferAll library scope es) := by
  induction es with
  | nil => rfl
  | cons e es ih =>
    obtain ⟨he, hes⟩ := List.forall_mem_cons.mp h
    simp only [Expr.relocatedAll, inferAll, he, ih hes, relabel_bind]
    rfl

theorem inferEntries_relocated {entries : List (String × Expr)}
    (h : ∀ key e, (key, e) ∈ entries →
      infer library scope (e.relocated f) = relabel f (infer library scope e)) :
    inferEntries library scope (Expr.relocatedEntries f entries) =
      relabel f (inferEntries library scope entries) := by
  induction entries with
  | nil => rfl
  | cons entry entries ih =>
    obtain ⟨key, e⟩ := entry
    obtain ⟨he, hentries⟩ := Entries.forall_mem_cons_iff.mp h
    simp only [Expr.relocatedEntries, inferEntries, he, ih hentries, relabel_bind]
    rfl

theorem bindPlain_relocated {count position : Nat} {σ : Assignment} {args : List Expr}
    (h : ∀ arg ∈ args, infer library scope (arg.relocated f) = relabel f (infer library scope arg)) :
    bindPlain library scope sig count (f location) position σ (Expr.relocatedAll f args) =
      relabel f (bindPlain library scope sig count location position σ args) := by
  induction args generalizing position σ with
  | nil => rfl
  | cons arg args ih =>
    obtain ⟨harg, hargs⟩ := List.forall_mem_cons.mp h
    rw [Expr.relocatedAll, bindPlain, bindPlain, Expr.isLambda_relocated]
    split
    · rfl
    · split
      · exact ih hargs
      · simp only [harg, ih hargs, checkArgument_relocated, relabel_bind]

/-- Functions written in place are looked into with the types of their parameters, which the places do not
enter; so the hypothesis is about their bodies, in any scope. -/
theorem bindLambdas_relocated {position : Nat} {σ : Assignment} {args : List Expr}
    (h : ∀ names body place, .lambda names body place ∈ args → ∀ scope,
      infer library scope (body.relocated f) = relabel f (infer library scope body)) :
    bindLambdas library scope sig (f location) position σ (Expr.relocatedAll f args) =
      relabel f (bindLambdas library scope sig location position σ args) := by
  induction args generalizing position σ with
  | nil => rfl
  | cons arg args ih =>
    have hargs := fun names body place hmem => h names body place (List.mem_cons_of_mem _ hmem)
    cases arg with
    | lambda names body place =>
      have hbody := h names body place List.mem_cons_self
      rw [Expr.relocatedAll, Expr.relocated, bindLambdas, bindLambdas]
      split
      · split
        · rfl
        · simp only [hbody, ih hargs, checkArgument_relocated, relabel_bind]
      · exact ih hargs
    | _ => exact ih hargs

/-! ### Expressions -/

theorem infer_relocated {e : Expr} :
    infer library scope (e.relocated f) = relabel f (infer library scope e) := by
  induction e generalizing scope with
  | literal value location => rfl
  | path path location =>
    rw [Expr.relocated, infer, infer]
    split <;> rfl
  | member object property location ih =>
    rw [Expr.relocated, infer, infer, ih, relabel_bind, Expr.sourceText_relocated]
    congr 1
    funext t
    split <;> rfl
  | unary op operand location ih =>
    rw [Expr.relocated, infer, infer, ih, relabel_bind]
    simp only [unaryType_relocated]
  | binary op left right location ihl ihr =>
    rw [Expr.relocated, infer, infer, ihl, ihr]
    simp only [binaryType_relocated, relabel_bind]
  | conditional condition thenBranch elseBranch location ihc iht ihe =>
    rw [Expr.relocated, infer, infer, ihc, iht, ihe, relabel_bind]
    congr 1
    funext c
    split
    · simp only [relabel_bind]
      rfl
    · rfl
  | call name args location ihargs ihbodies =>
    rw [Expr.relocated, infer, infer, Expr.length_relocatedAll]
    split
    · rfl
    · split
      · have hargs : ∀ arg ∈ args,
            infer library scope (arg.relocated f) = relabel f (infer library scope arg) :=
          fun arg harg => ihargs arg harg
        have hbodies : ∀ names body place, .lambda names body place ∈ args → ∀ scope,
            infer library scope (body.relocated f) = relabel f (infer library scope body) :=
          fun names body place hmem _ => ihbodies names body place hmem
        simp only [bindPlain_relocated hargs, bindLambdas_relocated hbodies, relabel_bind]
        rfl
      · rfl
  | map collection params body location ihc ihb =>
    rw [Expr.relocated, infer, infer, ihc, relabel_bind]
    congr 1
    funext input
    split
    · rfl
    · simp only [ihb, relabel_bind]
      rfl
  | filter collection params body location ihc ihb =>
    rw [Expr.relocated, infer, infer, ihc, relabel_bind]
    congr 1
    funext input
    split
    · rfl
    · rw [ihb, relabel_bind]
      congr 1
      funext result
      split <;> rfl
  | lambda params body location ih =>
    rw [Expr.relocated, infer, infer, ih, relabel_bind]
    rfl
  | letIn name value body location ihv ihb =>
    rw [Expr.relocated, infer, infer, ihv, relabel_bind]
    simp only [ihb]
  | object entries location ih =>
    rw [Expr.relocated, infer, infer, inferEntries_relocated fun key e hmem => ih key e hmem,
      relabel_bind]
    rfl
  | array elements location ih =>
    rw [Expr.relocated, infer, infer, inferAll_relocated fun e hmem => ih e hmem, relabel_bind]
    rfl

/-- An error stands at a node of the expression. -/
theorem location_mem_places {e : Expr} {error : TypeError}
    (h : infer library scope e = .error error) : error.location ∈ e.places := by
  -- the move that keeps the places of the nodes and no other place
  let keeping : Option Location → Option Location := fun l =>
    if l ∈ e.places then l else if l.isNone then some { file := none, line := 0, column := 0 } else none
  have hself : e.relocated keeping = e := Expr.relocated_eq_self fun l hl => if_pos hl
  have hmoved : infer library scope e = .error (error.relocated keeping) := by
    rw [← hself, infer_relocated, h]
    rfl
  have hkept : keeping error.location = error.location :=
    congrArg TypeError.location (Except.error.inj (hmoved.symm.trans h))
  by_contra hnot
  simp only [keeping, if_neg hnot] at hkept
  cases hlocation : error.location with
  | none => simp [hlocation] at hkept
  | some l => simp [hlocation] at hkept

/-- **Locations label errors and nothing else.** With every node moved to another place, an expression has
the same type if it had one; and where it had an error, which is at the place of one of its nodes, it has the
same error, moved in the same way. -/
theorem infer_relocated_outcome (f : Option Location → Option Location) (library : Library)
    (scope : Scope) (e : Expr) :
    (∀ t, infer library scope e = .ok t → infer library scope (e.relocated f) = .ok t) ∧
      ∀ error, infer library scope e = .error error →
        error.location ∈ e.places ∧
          infer library scope (e.relocated f) =
            .error { cause := error.cause, location := f error.location } := by
  rw [infer_relocated]
  constructor
  · intro t ht
    rw [ht]
    rfl
  · intro error herror
    refine ⟨location_mem_places herror, ?_⟩
    rw [herror]
    rfl

/-- In the function of a filter, a path has an error of its own, arguments of unrelated types have that of
the call, and a body that is no condition has that of the filter. A condition leaves no error to move. -/
theorem infer_relocated_outcome_of_lambda :
    let here (line column : UInt32) : Option Location := some { file := none, line, column }
    let shift : Option Location → Option Location :=
      Option.map fun l => { l with line := l.line + 10, file := some "orders.dsl" }
    let item : Ty := .object [("name", .mandatory .string)] false
    let scope : Scope := Scope.empty.bind "items" (.array item)
    let chosen (body : Expr) : Expr := .filter (.path "items" (here 1 8)) ["item"] body (here 1 1)
    let unknown : Expr := .path "item.size" (here 2 20)
    let clash : Expr := .call "coalesce" [.path "item.name" (here 2 9), .literal (.integer 3) none]
      (here 2 4)
    let text : Expr := .path "item.name" (here 3 5)
    let named : Expr := .binary .unequal text (.literal .null (here 3 16)) (here 3 5)
    infer .standard scope ((chosen unknown).relocated shift) =
        .error { cause := .unknownPath "item.size", location := shift (here 2 20) } ∧
      infer .standard scope ((chosen clash).relocated shift) =
        .error { cause := .conflict "coalesce" "T" .string .integer, location := shift (here 2 4) } ∧
      infer .standard scope ((chosen text).relocated shift) =
        .error { cause := .nonBooleanCondition .string, location := shift (here 1 1) } ∧
      infer .standard scope ((chosen named).relocated shift) = .ok (.array item) := by
  intro here shift item scope chosen unknown clash text named
  refine ⟨?_, ?_, ?_, ?_⟩
  · exact ((infer_relocated_outcome shift .standard scope (chosen unknown)).2 _
      (by with_unfolding_all rfl)).2
  · exact ((infer_relocated_outcome shift .standard scope (chosen clash)).2 _
      (by with_unfolding_all rfl)).2
  · exact ((infer_relocated_outcome shift .standard scope (chosen text)).2 _
      (by with_unfolding_all rfl)).2
  · exact (infer_relocated_outcome shift .standard scope (chosen named)).1 _
      (by with_unfolding_all rfl)

end Typing

end SchemaInfer
