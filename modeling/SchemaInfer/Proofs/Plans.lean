import SchemaInfer.Proofs.Outcomes
import SchemaInfer.Ty.Basic

/-!
# Conversions up to names

What a schema means depends on the rest of its document through names only: references, named types and the
like. A conversion is a function of how names are resolved, in any monad that has errors. A `Plan` is what it
comes to in one of these monads, the one that stops at each name and goes on once it is given a type. The
plan shows which names a conversion comes to (`Plan.asked`), and it can be gone through with the types of the
names at hand (`Plan.answer`) or with a resolver that works on a stack (`Plan.exec`).

A conversion does nothing with a monad but what all monads with errors can do. A `Correspondence` is a
relation between computations in two monads that goes along with these operations, so it holds between the
two conversions if it holds between the two ways to resolve names. The relations at the end are those by
which a conversion is compared with its plan, or with itself in another place.
-/

namespace SchemaInfer

/-- A conversion that stops at each name. -/
inductive Plan (α : Type) where
  | done (value : α)
  | fail (error : ImportError)
  | ask (name : String) (next : Ty → Plan α)

namespace Plan

variable {α β : Type}

protected def bind : Plan α → (α → Plan β) → Plan β
  | done value, f => f value
  | fail error, _ => fail error
  | ask name next, f => ask name fun ty => (next ty).bind f

protected def tryCatch : Plan α → (ImportError → Plan α) → Plan α
  | done value, _ => done value
  | fail error, handle => handle error
  | ask name next, handle => ask name fun ty => (next ty).tryCatch handle

instance : Monad Plan where
  pure := done
  bind := Plan.bind

instance : MonadExceptOf ImportError Plan where
  throw := fail
  tryCatch := Plan.tryCatch

/-- The plan to have the type of a name. -/
def typeOf (name : String) : Plan Ty :=
  ask name done

/-- Goes through a plan with the types of the names. -/
def answer (deref : String → Except ImportError Ty) : Plan α → Except ImportError α
  | done value => .ok value
  | fail error => .error error
  | ask name next => deref name >>= fun ty => (next ty).answer deref

/-- The names that are asked for, up to the first one that has no type. -/
def asked (deref : String → Except ImportError Ty) : Plan α → List String
  | ask name next =>
    name ::
      match deref name with
      | .ok ty => (next ty).asked deref
      | .error _ => []
  | _ => []

/-- Goes through a plan with a resolver that works on a stack, and gives nothing if the resolver gives
nothing. -/
def exec (resolver : String → List String → Option (Except ImportError Ty × List String)) :
    Plan α → List String → Option (Except ImportError α × List String)
  | done value, stack => some (.ok value, stack)
  | fail error, stack => some (.error error, stack)
  | ask name next, stack =>
    match resolver name stack with
    | none => none
    | some (.error failure, after) => some (.error failure, after)
    | some (.ok ty, after) => (next ty).exec resolver after

/-- The plan asks for these names only, and none of its own errors is about recursion. -/
def Within (names : List String) : Plan α → Prop
  | done _ => True
  | fail error => ∀ name, error ≠ .recursiveReference name
  | ask name next => name ∈ names ∧ ∀ ty, (next ty).Within names

/-! ### Going through a plan -/

variable {p : Plan α} {names : List String} {deref₁ deref₂ : String → Except ImportError Ty}

theorem answer_bind {f : α → Plan β} :
    (p >>= f).answer deref₁ = p.answer deref₁ >>= fun a => (f a).answer deref₁ := by
  induction p with
  | done value => rfl
  | fail error => rfl
  | ask name next ih =>
    change (deref₁ name >>= fun ty => (next ty >>= f).answer deref₁) = _
    simp only [ih, answer, bind_assoc]

theorem answer_typeOf {name : String} : (typeOf name).answer deref₁ = deref₁ name :=
  bind_ok

theorem answer_congr (hp : p.Within names) (h : ∀ name ∈ names, deref₁ name = deref₂ name) :
    p.answer deref₁ = p.answer deref₂ := by
  induction p with
  | done value => rfl
  | fail error => rfl
  | ask name next ih =>
    rw [answer, answer, h name hp.1]
    congr 1
    funext ty
    exact ih ty (hp.2 ty)

/-- A resolver that knows more types gives the same values. -/
theorem answer_mono {value : α} (hp : p.Within names)
    (h : ∀ name ∈ names, ∀ t, deref₁ name = .ok t → deref₂ name = .ok t)
    (hanswer : p.answer deref₁ = .ok value) : p.answer deref₂ = .ok value := by
  induction p with
  | done other => exact hanswer
  | fail error => cases hanswer
  | ask name next ih =>
    obtain ⟨ty, hty, hnext⟩ := bind_eq_ok_iff.mp hanswer
    exact bind_eq_ok_iff.mpr ⟨ty, h name hp.1 ty hty, ih ty (hp.2 ty) hnext⟩

theorem asked_subset (hp : p.Within names)
    (h : ∀ name ∈ names, ∀ t, deref₁ name = .ok t → deref₂ name = .ok t) :
    p.asked deref₁ ⊆ p.asked deref₂ := by
  induction p with
  | done value => exact List.Subset.refl _
  | fail error => exact List.Subset.refl _
  | ask name next ih =>
    rw [asked, asked]
    refine List.cons_subset_cons name ?_
    cases hty : deref₁ name with
    | error failure => exact List.nil_subset _
    | ok ty =>
      rw [h name hp.1 ty hty]
      exact ih ty (hp.2 ty)

/-- Recursion is found by the resolver and not by the plan. -/
theorem exists_asked_of_recursive {recursive : String} (hp : p.Within names)
    (hanswer : p.answer deref₁ = .error (.recursiveReference recursive)) :
    ∃ name ∈ p.asked deref₁, name ∈ names ∧ deref₁ name = .error (.recursiveReference recursive) := by
  induction p with
  | done value => cases hanswer
  | fail error => cases hp recursive (Except.error.inj hanswer)
  | ask name next ih =>
    rw [answer] at hanswer
    rw [asked]
    cases hty : deref₁ name with
    | error failure =>
      rw [hty] at hanswer
      have hfailure : failure = .recursiveReference recursive := Except.error.inj hanswer
      exact ⟨name, List.mem_cons_self, hp.1, hfailure ▸ hty⟩
    | ok ty =>
      rw [hty] at hanswer
      obtain ⟨other, hasked, hother⟩ := ih ty (hp.2 ty) hanswer
      exact ⟨other, List.mem_cons_of_mem _ hasked, hother⟩

section Exec

variable {resolver resolver' : String → List String → Option (Except ImportError Ty × List String)}
  {stack : List String}

/-- A resolver that leaves the stack as it was makes the plan leave it as it was. -/
theorem exec_eq (hp : p.Within names)
    (h : ∀ name ∈ names, resolver name stack = some (deref₁ name, stack)) :
    p.exec resolver stack = some (p.answer deref₁, stack) := by
  induction p with
  | done value => rfl
  | fail error => rfl
  | ask name next ih =>
    rw [exec, h name hp.1, answer]
    cases deref₁ name with
    | error failure => rfl
    | ok ty => exact ih ty (hp.2 ty)

theorem exec_mono {result : Except ImportError α × List String}
    (h : ∀ name stack result, resolver name stack = some result → resolver' name stack = some result)
    (hexec : p.exec resolver stack = some result) : p.exec resolver' stack = some result := by
  induction p generalizing stack with
  | done value => exact hexec
  | fail error => exact hexec
  | ask name next ih =>
    rw [exec] at hexec ⊢
    cases hresolve : resolver name stack with
    | none =>
      rw [hresolve] at hexec
      cases hexec
    | some found =>
      rw [hresolve] at hexec
      rw [h _ _ _ hresolve]
      obtain ⟨outcome, after⟩ := found
      cases outcome with
      | error failure => exact hexec
      | ok ty => exact ih ty hexec

end Exec

theorem Within.mono {more : List String} (hp : p.Within names) (h : names ⊆ more) : p.Within more := by
  induction p with
  | done value => trivial
  | fail error => exact hp
  | ask name next ih => exact ⟨h hp.1, fun ty => ih ty (hp.2 ty)⟩

theorem Within.bind {f : α → Plan β} (hp : p.Within names) (hf : ∀ value, (f value).Within names) :
    (p >>= f).Within names := by
  induction p with
  | done value => exact hf value
  | fail error => exact hp
  | ask name next ih => exact ⟨hp.1, fun ty => ih ty (hp.2 ty)⟩

end Plan

/-! ### Correspondences -/

section Correspondence

variable (m n : Type → Type) [Monad m] [Monad n] [MonadExceptOf ImportError m]
  [MonadExceptOf ImportError n]

/-- A relation between computations in two monads that goes along with what conversions do in them. An
`Exact` one relates equal errors only. The errors of a conversion itself are not about recursion. -/
structure Correspondence where
  Rel : {α : Type} → m α → n α → Prop
  Exact : Prop
  pure : ∀ {α : Type} (value : α), Rel (pure value) (pure value)
  bind : ∀ {α β : Type} {x : m α} {y : n α} {f : α → m β} {g : α → n β}, Rel x y →
    (∀ value, Rel (f value) (g value)) → Rel (x >>= f) (y >>= g)
  throw : ∀ {α : Type} {error error' : ImportError}, (∀ name, error ≠ .recursiveReference name) →
    (Exact → error = error') → Rel (throw error : m α) (throw error' : n α)

end Correspondence

namespace Correspondence

variable {m n : Type → Type} [Monad m] [Monad n] [MonadExceptOf ImportError m]
  [MonadExceptOf ImportError n] {α β : Type}

theorem mapM (R : Correspondence m n) {f : α → m β} {g : α → n β} {xs : List α}
    (h : ∀ x ∈ xs, R.Rel (f x) (g x)) : R.Rel (xs.mapM f) (xs.mapM g) := by
  have hloop : ∀ done, R.Rel (List.mapM.loop f xs done) (List.mapM.loop g xs done) := by
    induction xs with
    | nil =>
      intro done
      exact R.pure done.reverse
    | cons x xs ih =>
      obtain ⟨hx, hxs⟩ := List.forall_mem_cons.mp h
      intro done
      exact R.bind hx fun y => ih hxs (y :: done)
  exact hloop []

/-- Messages of an exact correspondence say the same place. -/
def SamePlace (R : Correspondence m n) (path path' : String) : Prop :=
  R.Exact → path = path'

theorem SamePlace.append {R : Correspondence m n} {path path' : String} (h : R.SamePlace path path')
    (more : String) : R.SamePlace (path ++ more) (path' ++ more) :=
  fun hexact => by rw [h hexact]

theorem SamePlace.malformed {R : Correspondence m n} {path path' : String} (h : R.SamePlace path path')
    (message : String) : R.Rel (MonadExcept.throw (.malformed path message) : m α)
      (MonadExcept.throw (.malformed path' message) : n α) :=
  R.throw (by simp) fun hexact => by rw [h hexact]

theorem SamePlace.unsupported {R : Correspondence m n} {path path' : String} (h : R.SamePlace path path')
    (message : String) : R.Rel (MonadExcept.throw (.unsupported path message) : m α)
      (MonadExcept.throw (.unsupported path' message) : n α) :=
  R.throw (by simp) fun hexact => by rw [h hexact]

/-- A plan and what it comes to with the types of the names. -/
def answering (deref : String → Except ImportError Ty) : Correspondence Plan (Except ImportError) where
  Rel p outcome := p.answer deref = outcome
  Exact := True
  pure _ := rfl
  bind hx hf := by
    rw [Plan.answer_bind, hx]
    congr 1
    funext value
    exact hf value
  throw _ heq := congrArg Except.error (heq trivial)

/-- A plan that asks for certain names only, beside any other. -/
def asking (names : List String) : Correspondence Plan Plan where
  Rel p _ := p.Within names
  Exact := False
  pure _ := trivial
  bind hx hf := hx.bind hf
  throw herror _ := herror

/-- A computation that gives a value only if the other one gives the same. -/
def yielding : Correspondence (Except ImportError) (Except ImportError) where
  Rel x y := ∀ value, x = .ok value → y = .ok value
  Exact := False
  pure _ _ h := h
  bind hx hf value h := by
    obtain ⟨first, hfirst, hrest⟩ := bind_eq_ok_iff.mp h
    exact bind_eq_ok_iff.mpr ⟨first, hx first hfirst, hf first value hrest⟩
  throw _ _ value h := by cases h

end Correspondence

end SchemaInfer
