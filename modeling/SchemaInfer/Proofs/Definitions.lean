import Mathlib.Logic.Relation
import SchemaInfer.Proofs.Plans

/-!
# Definitions that refer to each other

Names of definitions are expanded in the same way in every notation: while the plan of a definition is gone
through, its name stands on a stack, and a name that stands there already is not expanded again.
`Definitions` are plans with names, and `Definitions.resolve` is this procedure, with a bound on how many
expansions may be open. No bound is needed in the end, since each expansion takes a name away from those
that are not on the stack yet (`resolve_eq`). Nothing is left on the stack, whatever the outcome is.

The outcome is that of any solution of one equation, `Definitions.Solution`, which has the names on the stack
as a parameter. From the equation it follows that types do not depend on the stack, apart from the
expansions that it forbids (`Solution.mono`), and that a name is called recursive only if its expansion comes
to it again (`Solution.cycle`).
-/

namespace SchemaInfer

/-! ### Definitions -/

/-- Plans with names. While the names on a stack are being expanded, those names are recursive. -/
structure Definitions where
  /-- What the plans ask for. -/
  names : List String
  /-- The plan with a name, while those on a stack are being expanded. -/
  locate : List String → String → Except ImportError (Plan Ty)
  within : ∀ {stack name p}, locate stack name = .ok p → p.Within names
  notMem : ∀ {stack name p}, locate stack name = .ok p → name ∉ stack
  mono : ∀ {stack stack' name p}, stack' ⊆ stack → locate stack name = .ok p →
    locate stack' name = .ok p
  recursive : ∀ {stack name other}, locate stack name = .error (.recursiveReference other) →
    other = name ∧ name ∈ stack

namespace Definitions

/-- Expands a name, which stands on the stack for that time. There is no result if more than `depth`
expansions would be open. -/
def resolve (definitions : Definitions) :
    (depth : Nat) → String → List String → Option (Except ImportError Ty × List String)
  | 0, _, _ => none
  | depth + 1, name, stack =>
    match definitions.locate stack name with
    | .error failure => some (.error failure, stack)
    | .ok p =>
      (p.exec (definitions.resolve depth) (name :: stack)).map fun result =>
        (result.1, result.2.tail)

/-- Going through a plan with some names on the stack ends with an outcome and leaves a stack. -/
def Runs {α : Type} (definitions : Definitions) (p : Plan α) (stack : List String)
    (outcome : Except ImportError α) (after : List String) : Prop :=
  ∃ depth, p.exec (definitions.resolve depth) stack = some (outcome, after)

/-- Types for all names and stacks: a name has the type of its plan, with the name on the stack. -/
def Solution (definitions : Definitions) (deref : List String → String → Except ImportError Ty) : Prop :=
  ∀ stack name, deref stack name =
    definitions.locate stack name >>= fun p => p.answer (deref (name :: stack))

/-- The relation holds from a name to what its plan asks for. -/
def Covers (definitions : Definitions) (deref : List String → String → Except ImportError Ty)
    (uses : String → String → Prop) : Prop :=
  ∀ {stack name p other}, definitions.locate stack name = .ok p → other ∈ p.asked (deref [name]) →
    uses name other

end Definitions

theorem filter_notMem_cons (name : String) (names stack : List String) :
    (names.filter fun other => other ∉ name :: stack) =
      Expansion.without name (names.filter fun other => other ∉ stack) := by
  rw [Expansion.without, List.filter_filter]
  simp only [List.mem_cons, not_or, Bool.decide_and, bne, decide_not, Bool.beq_eq_decide_eq]

/-- The names that are not on the stack get fewer with each expansion. -/
theorem length_filter_cons_lt {name : String} {names stack : List String} (hmem : name ∈ names)
    (hnew : name ∉ stack) :
    (names.filter fun other => other ∉ name :: stack).length <
      (names.filter fun other => other ∉ stack).length := by
  rw [filter_notMem_cons]
  apply Expansion.length_without_lt
  simp [hmem, hnew]

namespace Definitions

variable {α : Type} {definitions : Definitions} {deref : List String → String → Except ImportError Ty}
  {uses : String → String → Prop} {stack stack' : List String} {name : String}

/-! ### Types and stacks -/

/-- What is true of a name if it is true of those inside of it, one more being on the stack, is true of all
of them. -/
theorem induction (definitions : Definitions) {motive : List String → String → Prop}
    (step : ∀ stack name, (∀ p, definitions.locate stack name = .ok p →
      ∀ inner ∈ definitions.names, motive (name :: stack) inner) → motive stack name)
    (stack : List String) (name : String) : motive stack name := by
  have hown : ∀ stack, ∀ name ∈ definitions.names, motive stack name := by
    intro stack
    induction hlength : (definitions.names.filter fun other => other ∉ stack).length
      using Nat.strongRecOn generalizing stack with
    | _ length ih =>
    subst hlength
    intro name hmem
    apply step
    intro p hlocate
    exact ih _ (length_filter_cons_lt hmem (definitions.notMem hlocate)) _ rfl
  apply step
  intro p _
  exact hown _

/-- Types do not depend on what is on the stack. -/
theorem Solution.mono (hderef : definitions.Solution deref) {t : Ty} (hsub : stack' ⊆ stack)
    (h : deref stack name = .ok t) : deref stack' name = .ok t := by
  induction stack, name using definitions.induction generalizing stack' t with
  | step stack name ih =>
    rw [hderef] at h ⊢
    obtain ⟨p, hlocate, hanswer⟩ := bind_eq_ok_iff.mp h
    refine bind_eq_ok_iff.mpr ⟨p, definitions.mono hsub hlocate, ?_⟩
    refine Plan.answer_mono (definitions.within hlocate) ?_ hanswer
    intro inner hinner u hu
    exact ih p hlocate inner hinner (List.cons_subset_cons name hsub) hu

/-- Recursion is found only where an expansion comes to a name that is on the stack, which it has been
since before the first one or since an expansion that comes to it again. -/
theorem Solution.cycle (hderef : definitions.Solution deref) (huses : definitions.Covers deref uses)
    {recursive : String} (h : deref stack name = .error (.recursiveReference recursive)) :
    Relation.ReflTransGen uses name recursive ∧
      (recursive ∈ stack ∨ Relation.TransGen uses recursive recursive) := by
  induction stack, name using definitions.induction with
  | step stack name ih =>
    rw [hderef] at h
    cases hlocate : definitions.locate stack name with
    | error failure =>
      rw [hlocate] at h
      have hfailure : failure = .recursiveReference recursive := Except.error.inj h
      obtain ⟨rfl, hmem⟩ := definitions.recursive (hfailure ▸ hlocate)
      exact ⟨.refl, .inl hmem⟩
    | ok p =>
      rw [hlocate, ok_bind] at h
      have hwithin := definitions.within hlocate
      obtain ⟨inner, hasked, hinner, hfound⟩ := Plan.exists_asked_of_recursive hwithin h
      have hinnerUses : uses name inner := by
        apply huses hlocate
        refine Plan.asked_subset hwithin ?_ hasked
        intro other _ t ht
        exact hderef.mono (List.cons_subset_cons name (List.nil_subset stack)) ht
      obtain ⟨hreach, hcycle⟩ := ih p hlocate inner hinner hfound
      refine ⟨.head hinnerUses hreach, ?_⟩
      rcases hcycle with hmem | hcycle
      · rcases List.mem_cons.mp hmem with rfl | hmem
        · exact .inr (.head' hinnerUses hreach)
        · exact .inl hmem
      · exact .inr hcycle

/-! ### The procedure comes to an end -/

/-- As many expansions can be open as there are names that are not on the stack. -/
theorem resolve_eq (hderef : definitions.Solution deref) {names : List String} {depth : Nat}
    (hnames : definitions.names ⊆ names) (hmem : name ∈ names)
    (hdepth : (names.filter fun other => other ∉ stack).length < depth) :
    definitions.resolve depth name stack = some (deref stack name, stack) := by
  induction depth generalizing name stack with
  | zero => cases hdepth
  | succ depth ih =>
    rw [resolve, hderef]
    cases hlocate : definitions.locate stack name with
    | error failure => rfl
    | ok p =>
      have hless := length_filter_cons_lt hmem (definitions.notMem hlocate)
      have hinner : ∀ inner ∈ definitions.names, definitions.resolve depth inner (name :: stack) =
          some (deref (name :: stack) inner, name :: stack) := by
        intro inner hinner
        apply ih (hnames hinner)
        omega
      dsimp only
      rw [Plan.exec_eq (definitions.within hlocate) hinner]
      rfl

theorem resolve_mono {depth depth' : Nat} {result : Except ImportError Ty × List String}
    (hle : depth ≤ depth') (h : definitions.resolve depth name stack = some result) :
    definitions.resolve depth' name stack = some result := by
  induction depth generalizing depth' name stack result with
  | zero => cases h
  | succ depth ih =>
    obtain ⟨depth', rfl⟩ : ∃ n, depth' = n + 1 := ⟨depth' - 1, by omega⟩
    rw [resolve] at h ⊢
    cases hlocate : definitions.locate stack name with
    | error failure =>
      rw [hlocate] at h
      exact h
    | ok p =>
      rw [hlocate] at h
      obtain ⟨found, hexec, hresult⟩ := Option.map_eq_some_iff.mp h
      refine Option.map_eq_some_iff.mpr ⟨found, Plan.exec_mono ?_ hexec, hresult⟩
      intro inner stack result hinner
      exact ih (by omega) hinner

/-- Going through a plan always ends, with one outcome and the stack as it was. -/
theorem runs_iff (hderef : definitions.Solution deref) {p : Plan α} {names : List String}
    (hp : p.Within names) {outcome : Except ImportError α} {after : List String} :
    definitions.Runs p stack outcome after ↔
      outcome = p.answer (deref stack) ∧ after = stack := by
  have hends : ∀ depth, (names ++ definitions.names).length < depth →
      p.exec (definitions.resolve depth) stack = some (p.answer (deref stack), stack) := by
    intro depth hdepth
    apply Plan.exec_eq hp
    intro name hmem
    apply resolve_eq hderef (List.subset_append_right _ _) (List.mem_append_left _ hmem)
    exact Nat.lt_of_le_of_lt (List.length_filter_le _ _) hdepth
  constructor
  · rintro ⟨depth, hexec⟩
    have hlater : ∀ more, p.exec (definitions.resolve (depth + more)) stack =
        some (outcome, after) := by
      intro more
      refine Plan.exec_mono ?_ hexec
      intro inner stack result
      exact resolve_mono (Nat.le_add_right depth more)
    have hboth := (hlater _).symm.trans
      (hends (depth + ((names ++ definitions.names).length + 1)) (by omega))
    exact Prod.mk.inj (Option.some.inj hboth)
  · rintro ⟨rfl, rfl⟩
    exact ⟨_, hends _ (Nat.lt_succ_self _)⟩

/-- The first name on the way to the recursive one is one that the plan itself asks for. -/
theorem Solution.answer_cycle (hderef : definitions.Solution deref)
    (huses : definitions.Covers deref uses) {p : Plan α} {names : List String} (hp : p.Within names)
    {recursive : String} (h : p.answer (deref stack) = .error (.recursiveReference recursive)) :
    (∃ first ∈ p.asked (deref stack), Relation.ReflTransGen uses first recursive) ∧
      (recursive ∈ stack ∨ Relation.TransGen uses recursive recursive) := by
  obtain ⟨first, hasked, _, hfirst⟩ := Plan.exists_asked_of_recursive hp h
  obtain ⟨hreach, hcycle⟩ := hderef.cycle huses hfirst
  exact ⟨⟨first, hasked, hreach⟩, hcycle⟩

end Definitions

end SchemaInfer
