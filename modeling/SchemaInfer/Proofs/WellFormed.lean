import SchemaInfer.Proofs.Entries
import SchemaInfer.Ty.Subtype

/-!
# Well-formed types

A type is well-formed when each of its parts is what the library builds: the properties of an object
have different names, and a union has at least two members, none of which is a union and no two of
which are equal. The notion speaks of all parts of a type, so this module first says what the parts
are, gives the induction over them that the nested lists of `Ty` do not come with, and lets a property
of one node range over all of them (`Ty.Everywhere`). Much of it rests on less: a type is irredundant
when no object inside it repeats a name and no union a member.
-/

namespace SchemaInfer.Ty

/-! ### Parts -/

section Size

variable {t r : Ty} {ps : Properties} {isOpen : Bool} {ms params : List Ty}

theorem sizeOf_lt_array : sizeOf t < sizeOf (array t) := by
  simp +arith

theorem sizeOf_lt_object {name : String} {p : Property Ty} (h : (name, p) ∈ ps) :
    sizeOf p.ty < sizeOf (object ps isOpen) := by
  have := sizeOf_lt_of_property_mem h
  simp +arith
  omega

theorem sizeOf_lt_union {m : Ty} (h : m ∈ ms) : sizeOf m < sizeOf (union ms) := by
  have := List.sizeOf_lt_of_mem h
  simp +arith
  omega

theorem sizeOf_param_lt_function {p : Ty} (h : p ∈ params) :
    sizeOf p < sizeOf (function params r) := by
  have := List.sizeOf_lt_of_mem h
  simp +arith
  omega

theorem sizeOf_result_lt_function : sizeOf r < sizeOf (function params r) := by
  simp +arith

end Size

/-- Induction on a type with a hypothesis for each of its immediate parts. -/
@[elab_as_elim, induction_eliminator]
theorem induction {motive : Ty → Prop} (string : motive string) (number : motive number)
    (integer : motive integer) (boolean : motive boolean) (null : motive null) (any : motive any)
    (array : ∀ t, motive t → motive (array t))
    (object : ∀ ps isOpen, (∀ name p, (name, p) ∈ ps → motive p.ty) → motive (object ps isOpen))
    (union : ∀ ms, (∀ m ∈ ms, motive m) → motive (union ms))
    (var : ∀ name, motive (var name))
    (function : ∀ ps r, (∀ p ∈ ps, motive p) → motive r → motive (function ps r)) :
    ∀ t, motive t
  | .string => string
  | .number => number
  | .integer => integer
  | .boolean => boolean
  | .null => null
  | .any => any
  | .array t =>
    array t (induction string number integer boolean null any array object union var function t)
  | .object ps isOpen => object ps isOpen fun _ p _ =>
    induction string number integer boolean null any array object union var function p.ty
  | .union ms => union ms fun m _ =>
    induction string number integer boolean null any array object union var function m
  | .var name => var name
  | .function ps r => function ps r
    (fun p _ =>
      induction string number integer boolean null any array object union var function p)
    (induction string number integer boolean null any array object union var function r)
termination_by t => sizeOf t
decreasing_by
  · exact sizeOf_lt_array
  · exact sizeOf_lt_object ‹_ ∈ ps›
  · exact sizeOf_lt_union ‹_ ∈ ms›
  · exact sizeOf_param_lt_function ‹_ ∈ ps›
  · exact sizeOf_result_lt_function

/-- `Part s t` says that `s` is `t` or stands somewhere inside of it. -/
inductive Part (s : Ty) : Ty → Prop
  | self : Part s s
  | element {t : Ty} : Part s t → Part s (array t)
  | property {name : String} {p : Property Ty} {ps : Properties} {isOpen : Bool} :
    (name, p) ∈ ps → Part s p.ty → Part s (object ps isOpen)
  | member {m : Ty} {ms : List Ty} : m ∈ ms → Part s m → Part s (union ms)
  | param {p r : Ty} {ps : List Ty} : p ∈ ps → Part s p → Part s (function ps r)
  | result {r : Ty} {ps : List Ty} : Part s r → Part s (function ps r)

/-- A property of nodes that all parts of a type have. -/
def Everywhere (P : Ty → Prop) (t : Ty) : Prop :=
  ∀ s, Part s t → P s

namespace Everywhere

variable {P Q : Ty → Prop} {t r : Ty} {ps : Properties} {isOpen : Bool} {ms params : List Ty}

theorem head (h : Everywhere P t) : P t :=
  h t .self

theorem of_isPrimitive (hprimitive : t.isPrimitive = true) (h : P t) : Everywhere P t := by
  intro s hpart
  cases hpart with
  | self => exact h
  | element _ | property _ _ | member _ _ | param _ _ | result _ =>
    simp [isPrimitive] at hprimitive

@[simp] theorem var_iff {name : String} : Everywhere P (var name) ↔ P (var name) := by
  constructor
  · exact head
  · intro h s hpart
    cases hpart with
    | self => exact h

@[simp] theorem array_iff : Everywhere P (array t) ↔ P (array t) ∧ Everywhere P t := by
  constructor
  · intro h
    exact ⟨h.head, fun s hpart => h s (.element hpart)⟩
  · rintro ⟨hhead, helement⟩ s hpart
    cases hpart with
    | self => exact hhead
    | element hpart => exact helement s hpart

@[simp] theorem object_iff : Everywhere P (object ps isOpen) ↔
    P (object ps isOpen) ∧ ∀ name p, (name, p) ∈ ps → Everywhere P p.ty := by
  constructor
  · intro h
    exact ⟨h.head, fun name p hmem s hpart => h s (.property hmem hpart)⟩
  · rintro ⟨hhead, hproperties⟩ s hpart
    cases hpart with
    | self => exact hhead
    | property hmem hpart => exact hproperties _ _ hmem s hpart

@[simp] theorem union_iff : Everywhere P (union ms) ↔
    P (union ms) ∧ ∀ m ∈ ms, Everywhere P m := by
  constructor
  · intro h
    exact ⟨h.head, fun m hmem s hpart => h s (.member hmem hpart)⟩
  · rintro ⟨hhead, hmembers⟩ s hpart
    cases hpart with
    | self => exact hhead
    | member hmem hpart => exact hmembers _ hmem s hpart

@[simp] theorem function_iff : Everywhere P (function params r) ↔
    P (function params r) ∧ (∀ p ∈ params, Everywhere P p) ∧ Everywhere P r := by
  constructor
  · intro h
    exact ⟨h.head, fun p hmem s hpart => h s (.param hmem hpart),
      fun s hpart => h s (.result hpart)⟩
  · rintro ⟨hhead, hparams, hresult⟩ s hpart
    cases hpart with
    | self => exact hhead
    | param hmem hpart => exact hparams _ hmem s hpart
    | result hpart => exact hresult s hpart

end Everywhere

/-! ### Testing all parts -/

mutual

/-- Tests all parts of a type. -/
def everywhere (test : Ty → Bool) : Ty → Bool
  | array t => test (array t) && t.everywhere test
  | object ps isOpen => test (object ps isOpen) && everywhereProperties test ps
  | union ms => test (union ms) && everywhereAll test ms
  | function ps r => test (function ps r) && everywhereAll test ps && r.everywhere test
  | var name => test (var name)
  | string => test string
  | number => test number
  | integer => test integer
  | boolean => test boolean
  | null => test null
  | any => test any

def everywhereAll (test : Ty → Bool) : List Ty → Bool
  | [] => true
  | t :: ts => t.everywhere test && everywhereAll test ts

def everywhereProperties (test : Ty → Bool) : List (String × Property Ty) → Bool
  | [] => true
  | (_, p) :: ps => p.ty.everywhere test && everywhereProperties test ps

end

theorem everywhereAll_iff {test : Ty → Bool} {ts : List Ty} :
    everywhereAll test ts = true ↔ ∀ t ∈ ts, t.everywhere test = true := by
  induction ts with
  | nil => simp [everywhereAll]
  | cons t ts ih => simp [everywhereAll, ih]

theorem everywhereProperties_iff {test : Ty → Bool} {ps : Properties} :
    everywhereProperties test ps = true ↔
      ∀ name p, (name, p) ∈ ps → p.ty.everywhere test = true := by
  induction ps with
  | nil => simp [everywhereProperties]
  | cons first ps ih =>
    obtain ⟨name, p⟩ := first
    rw [everywhereProperties, Bool.and_eq_true, ih, Entries.forall_mem_cons_iff]

theorem everywhere_iff {P : Ty → Prop} [DecidablePred P] {t : Ty} :
    t.everywhere (fun s => decide (P s)) = true ↔ Everywhere P t := by
  induction t with
  | string | number | integer | boolean | null | any =>
    rw [everywhere, decide_eq_true_eq]
    exact ⟨Everywhere.of_isPrimitive rfl, Everywhere.head⟩
  | var name => simp [everywhere]
  | array t ih => simp [everywhere, ih]
  | object ps isOpen ih =>
    rw [everywhere, Bool.and_eq_true, decide_eq_true_eq, everywhereProperties_iff,
      Everywhere.object_iff]
    exact and_congr_right fun _ => forall_congr' fun name => forall_congr' fun p =>
      forall_congr' fun hmem => ih name p hmem
  | union ms ih =>
    rw [everywhere, Bool.and_eq_true, decide_eq_true_eq, everywhereAll_iff, Everywhere.union_iff]
    exact and_congr_right fun _ => forall_congr' fun m => forall_congr' fun hmem => ih m hmem
  | function ps r ihparams ihr =>
    rw [everywhere, Bool.and_eq_true, Bool.and_eq_true, decide_eq_true_eq, everywhereAll_iff, ihr,
      Everywhere.function_iff, and_assoc]
    exact and_congr_right fun _ => and_congr_left fun _ => forall_congr' fun p =>
      forall_congr' fun hmem => ihparams p hmem

instance {P : Ty → Prop} [DecidablePred P] : DecidablePred (Everywhere P) :=
  fun _ => decidable_of_iff _ everywhere_iff

/-! ### Telling types apart -/

def isUnion : Ty → Bool
  | union _ => true
  | _ => false

def isVar : Ty → Bool
  | var _ => true
  | _ => false

theorem eq_any_of_isAny {t : Ty} (h : t.isAny = true) : t = any := by
  cases t with
  | any => rfl
  | _ => cases h

theorem eq_null_of_isNull {t : Ty} (h : t.isNull = true) : t = null := by
  cases t with
  | null => rfl
  | _ => cases h

/-! ### Well-formedness -/

/-- What well-formedness asks of one node. -/
def WellFormedNode : Ty → Prop
  | object ps _ => (Entries.keys ps).Nodup
  | union ms =>
    2 ≤ ms.length ∧ (∀ m ∈ ms, m.isUnion = false) ∧ ms.Pairwise fun m n => (m == n) = false
  | _ => True

instance : DecidablePred WellFormedNode
  | object ps _ => inferInstanceAs (Decidable (Entries.keys ps).Nodup)
  | union ms => inferInstanceAs (Decidable (2 ≤ ms.length ∧ (∀ m ∈ ms, m.isUnion = false) ∧
      ms.Pairwise fun m n => (m == n) = false))
  | string | number | integer | boolean | null | any | array _ | var _ | function _ _ =>
    inferInstanceAs (Decidable True)

/-- Every object inside the type names its properties apart, and every union inside it is a set of at
least two types that are no unions. -/
def WellFormed (t : Ty) : Prop :=
  t.Everywhere WellFormedNode

instance : DecidablePred WellFormed :=
  inferInstanceAs (DecidablePred (Everywhere WellFormedNode))

namespace WellFormed

variable {t r : Ty} {ps : Properties} {isOpen : Bool} {ms params : List Ty}

theorem of_isPrimitive (h : t.isPrimitive = true) : t.WellFormed := by
  refine Everywhere.of_isPrimitive h ?_
  cases t with
  | object _ _ | union _ => simp [isPrimitive] at h
  | _ => trivial

@[simp] theorem var {name : String} : (Ty.var name).WellFormed :=
  Everywhere.var_iff.mpr trivial

@[simp] theorem array_iff : (array t).WellFormed ↔ t.WellFormed := by
  simp [WellFormed, WellFormedNode]

theorem object_iff : (object ps isOpen).WellFormed ↔
    (Entries.keys ps).Nodup ∧ ∀ name p, (name, p) ∈ ps → p.ty.WellFormed := by
  simp [WellFormed, WellFormedNode]

theorem union_iff : (union ms).WellFormed ↔
    2 ≤ ms.length ∧ (∀ m ∈ ms, m.isUnion = false) ∧ (ms.Pairwise fun m n => (m == n) = false) ∧
      ∀ m ∈ ms, m.WellFormed := by
  simp [WellFormed, WellFormedNode, and_assoc]

theorem function_iff : (function params r).WellFormed ↔
    (∀ p ∈ params, p.WellFormed) ∧ r.WellFormed := by
  simp [WellFormed, WellFormedNode]

end WellFormed

/-! ### Irredundant types -/

/-- What irredundance asks of one node. -/
def IrredundantNode : Ty → Prop
  | object ps _ => (Entries.keys ps).Nodup
  | union ms => ms.Pairwise fun m n => (m == n) = false
  | _ => True

instance : DecidablePred IrredundantNode
  | object ps _ => inferInstanceAs (Decidable (Entries.keys ps).Nodup)
  | union ms => inferInstanceAs (Decidable (ms.Pairwise fun m n => (m == n) = false))
  | string | number | integer | boolean | null | any | array _ | var _ | function _ _ =>
    inferInstanceAs (Decidable True)

/-- Every object inside the type names its properties apart, and the members of every union inside it are
pairwise unequal. Unions may be of any size and may hold unions. -/
def Irredundant (t : Ty) : Prop :=
  t.Everywhere IrredundantNode

instance : DecidablePred Irredundant :=
  inferInstanceAs (DecidablePred (Everywhere IrredundantNode))

namespace Irredundant

variable {t r : Ty} {ps : Properties} {isOpen : Bool} {ms params : List Ty}

@[simp] theorem array_iff : (array t).Irredundant ↔ t.Irredundant := by
  simp [Irredundant, IrredundantNode]

theorem object_iff : (object ps isOpen).Irredundant ↔
    (Entries.keys ps).Nodup ∧ ∀ name p, (name, p) ∈ ps → p.ty.Irredundant := by
  simp [Irredundant, IrredundantNode]

theorem union_iff : (union ms).Irredundant ↔
    (ms.Pairwise fun m n => (m == n) = false) ∧ ∀ m ∈ ms, m.Irredundant := by
  simp [Irredundant, IrredundantNode]

theorem function_iff : (function params r).Irredundant ↔
    (∀ p ∈ params, p.Irredundant) ∧ r.Irredundant := by
  simp [Irredundant, IrredundantNode]

end Irredundant

theorem WellFormed.irredundant {t : Ty} (h : t.WellFormed) : t.Irredundant := by
  intro s hpart
  have hnode := h s hpart
  cases s with
  | object ps isOpen => exact hnode
  | union ms => exact hnode.2.2
  | _ => trivial

end SchemaInfer.Ty
