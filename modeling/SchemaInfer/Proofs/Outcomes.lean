import SchemaInfer.Schema.Expansion

/-!
# Outcomes of computations that may fail

Inference and the conversion of schemas give a value or the first failure. `bind_eq_ok_iff` takes a
computation that succeeded apart into its steps, and `Ends` is a condition on both outcomes, which steps
in sequence hand on; `Yields` is the one that asks nothing of failures.
-/

namespace SchemaInfer

theorem bind_eq_ok_iff {ε α β : Type} {x : Except ε α} {f : α → Except ε β} {b : β} :
    (x >>= f) = .ok b ↔ ∃ a, x = .ok a ∧ f a = .ok b := by
  cases x with
  | error failure =>
    constructor
    · intro h
      cases h
    · rintro ⟨a, h, _⟩
      cases h
  | ok a =>
    constructor
    · intro h
      exact ⟨a, rfl, h⟩
    · rintro ⟨a', h, hf⟩
      cases h
      exact hf

theorem ok_bind {ε α β : Type} {a : α} {f : α → Except ε β} : (Except.ok a >>= f) = f a := rfl

@[simp] theorem bind_ok {ε α : Type} {x : Except ε α} : (x >>= fun a => .ok a) = x := by
  cases x <;> rfl

/-- A computation that gives a value with one property or fails with an error that has another. -/
def Ends {ε α : Type} (P : α → Prop) (Q : ε → Prop) : Except ε α → Prop
  | .ok value => P value
  | .error failure => Q failure

theorem Ends.of_eq_ok {ε α : Type} {P : α → Prop} {Q : ε → Prop} {x : Except ε α} {value : α}
    (h : Ends P Q x) (hx : x = .ok value) : P value := by
  rw [hx] at h
  exact h

theorem Ends.bind {ε α β : Type} {P : α → Prop} {P' : β → Prop} {Q : ε → Prop} {x : Except ε α}
    {f : α → Except ε β} (hx : Ends P Q x) (hf : ∀ value, P value → Ends P' Q (f value)) :
    Ends P' Q (x >>= f) := by
  cases x with
  | ok value => exact hf value hx
  | error failure => exact hx

theorem Ends.mapM {ε α β : Type} {P : β → Prop} {Q : ε → Prop} {f : α → Except ε β} {xs : List α}
    (h : ∀ x ∈ xs, Ends P Q (f x)) : Ends (fun ys => ∀ y ∈ ys, P y) Q (xs.mapM f) := by
  induction xs with
  | nil =>
    intro y hy
    cases hy
  | cons x xs ih =>
    rw [List.mapM_cons]
    have hxs : ∀ x ∈ xs, Ends P Q (f x) := fun x hx => h x (List.mem_cons_of_mem _ hx)
    refine (h x List.mem_cons_self).bind fun y hy => (ih hxs).bind fun ys hys => ?_
    exact List.forall_mem_cons.mpr ⟨hy, hys⟩

/-- A computation that gives a value with a property, if it gives one. -/
abbrev Yields {ε α : Type} (P : α → Prop) (x : Except ε α) : Prop :=
  Ends P (fun _ => True) x

theorem Yields.of_forall {ε α : Type} {P : α → Prop} {x : Except ε α}
    (h : ∀ value, x = .ok value → P value) : Yields P x := by
  cases x with
  | ok value => exact h value rfl
  | error failure => trivial

theorem yields_true {ε α : Type} {x : Except ε α} : Yields (fun _ => True) x :=
  .of_forall fun _ _ => trivial

theorem yields_self {ε α : Type} {x : Except ε α} : Yields (fun value => x = .ok value) x :=
  .of_forall fun _ h => h

theorem Yields.expanding {α : Type} {P : α → Prop} {name : String} {available : List String}
    {expand : (rest : List String) → rest.length < available.length → Except ImportError α}
    (h : ∀ rest hrest, Yields P (expand rest hrest)) :
    Yields P (Expansion.expanding name available expand) := by
  unfold Expansion.expanding
  split
  · exact h _ _
  · trivial

end SchemaInfer
