import SchemaInfer.Proofs.Definitions
import SchemaInfer.Proofs.ImportedTypes

/-!
# The expansion of definitions in XML Schemas

Named types and global elements refer to each other, each through a key. The table of all definitions finds
by a key what the resolver of a schema finds by a name (`definition?_typeKey`, `definition?_elementKey`).
Conversions with corresponding resolvers correspond (`Resolver.Corresponds`), so with the resolver that asks
for keys every part of a schema is converted to a plan that comes to the same results. The definitions of a
schema are definitions that refer to each other, and expanding them ends with the stack as it was and finds
real cycles only.
-/

namespace SchemaInfer.Xsd

/-! ### The table of definitions -/

/-- What a key can stand for. -/
inductive Definition where
  | complexType (type : ComplexType)
  | simpleType (type : SimpleType)
  | element (element : Element)

/-- The type that a definition describes. -/
def Definition.type {m : Type → Type} [Monad m] [MonadExceptOf ImportError m] (r : Resolver m) :
    Definition → m Ty
  | .complexType type => r.complexType type
  | .simpleType type => r.simpleType type
  | .element declared => r.elementType declared

/-- The entries of a table for the things that have a name. -/
def keyed {α : Type} (key : String → String) (name : α → Option String) (definition : α → Definition)
    (things : List α) : List (String × Definition) :=
  things.filterMap fun thing => (name thing).map fun name => (key name, definition thing)

namespace Schema

/-- All definitions under their keys. The first one with a key counts. -/
def table (schema : Schema) : List (String × Definition) :=
  keyed typeKey ComplexType.name .complexType schema.complexTypes.reverse
    ++ keyed typeKey SimpleType.name .simpleType schema.simpleTypes.reverse
    ++ keyed elementKey Element.name .element schema.elements.reverse

def definition? (schema : Schema) (key : String) : Option Definition :=
  schema.table.lookup key

end Schema

theorem typeKey_injective : Function.Injective typeKey := by
  intro a b h
  exact (String.append_right_inj _).mp h

theorem elementKey_injective : Function.Injective elementKey := by
  intro a b h
  exact (String.append_right_inj _).mp h

theorem typeKey_ne_elementKey (a b : String) : typeKey a ≠ elementKey b := by
  intro h
  have hchars := congrArg String.toList h
  simp [typeKey, elementKey] at hchars

section Keyed

variable {α : Type} {key : String → String} {name : α → Option String} {definition : α → Definition}

theorem lookup_keyed (hkey : Function.Injective key) (base : String) (things : List α) :
    (keyed key name definition things).lookup (key base) =
      (things.find? fun thing => name thing == some base).map definition := by
  induction things with
  | nil => rfl
  | cons thing things ih =>
    rw [keyed] at ih ⊢
    cases hname : name thing with
    | none => simp [hname, ih]
    | some other =>
      by_cases heq : other = base
      · simp [hname, heq]
      · have hne : key base ≠ key other := fun h => heq (hkey h).symm
        simp [hname, heq, List.lookup_cons, beq_eq_false_iff_ne.mpr hne, ih]

theorem lookup_keyed_of_ne {other : String} (hkey : ∀ base, key base ≠ other) (things : List α) :
    (keyed key name definition things).lookup other = none := by
  rw [List.lookup_eq_none_iff]
  intro entry hentry
  obtain ⟨thing, _, hthing⟩ := List.mem_filterMap.mp hentry
  obtain ⟨base, _, rfl⟩ := Option.map_eq_some_iff.mp hthing
  simpa using (hkey base).symm

end Keyed

variable {schema : Schema}

/-- Under the key of a type stands the complex type with its name, or else the simple type. -/
theorem definition?_typeKey (base : String) :
    schema.definition? (typeKey base) =
      ((schema.complexType? base).map .complexType).or ((schema.simpleType? base).map .simpleType) := by
  have hother : ∀ name, elementKey name ≠ typeKey base := fun name h => typeKey_ne_elementKey _ _ h.symm
  simp only [Schema.definition?, Schema.table, List.lookup_append, lookup_keyed typeKey_injective,
    lookup_keyed_of_ne hother, Option.or_none]
  rfl

theorem definition?_elementKey (base : String) :
    schema.definition? (elementKey base) = (schema.element? base).map .element := by
  have hother : ∀ name, typeKey name ≠ elementKey base := fun name => typeKey_ne_elementKey _ _
  simp only [Schema.definition?, Schema.table, List.lookup_append, lookup_keyed elementKey_injective,
    lookup_keyed_of_ne hother, Option.none_or]
  rfl

/-- Whatever is in the table may be expanded. -/
theorem mem_keys_of_definition? {key : String} {definition : Definition}
    (h : schema.definition? key = some definition) : key ∈ schema.keys := by
  have hentry : (key, definition) ∈ schema.table := Entries.mem_of_lookup h
  simp only [Schema.table, keyed, List.mem_append, List.mem_filterMap, List.mem_reverse,
    Option.map_eq_some_iff, Prod.mk.injEq] at hentry
  simp only [Schema.keys, List.mem_append, List.mem_filterMap, Option.map_eq_some_iff]
  rcases hentry with (⟨type, htype, name, hname, rfl, _⟩ | ⟨type, htype, name, hname, rfl, _⟩) |
    ⟨element, helement, name, hname, rfl, _⟩
  · exact .inl (.inl ⟨type, htype, name, hname, rfl⟩)
  · exact .inl (.inr ⟨type, htype, name, hname, rfl⟩)
  · exact .inr ⟨element, helement, name, hname, rfl⟩

/-! ### Corresponding conversions -/

section Corresponds

variable {m n : Type → Type} [Monad m] [Monad n] [MonadExceptOf ImportError m]
  [MonadExceptOf ImportError n]

/-- Names are resolved in corresponding ways. -/
structure Resolver.Corresponds (R : Correspondence m n) (r : Resolver m) (r' : Resolver n) : Prop where
  named : ∀ name, R.Rel (r.named name) (r'.named name)
  element : ∀ reference, R.Rel (r.element reference) (r'.element reference)

namespace Resolver.Corresponds

variable {R : Correspondence m n} {r : Resolver m} {r' : Resolver n}

theorem simpleType (h : r.Corresponds R r') :
    ∀ type, R.Rel (r.simpleType type) (r'.simpleType type)
  | ⟨_, _, _, some item, _⟩ => R.bind (h.named item) fun _ => R.pure _
  | ⟨_, some base, _, none, []⟩ => h.named base
  | ⟨_, none, _, none, []⟩ => R.pure _
  | ⟨_, _, _, none, _ :: _⟩ => R.bind (R.mapM fun name _ => h.named name) fun _ => R.pure _

theorem attributeType (h : r.Corresponds R r') :
    ∀ attr, R.Rel (r.attributeType attr) (r'.attributeType attr)
  | ⟨_, _, some type, _, _⟩ => h.simpleType type
  | ⟨_, some name, none, _, _⟩ => h.named name
  | ⟨_, none, none, _, _⟩ => R.pure _

theorem attributes (h : r.Corresponds R r') (attrs : List Attribute) (properties : Properties) :
    R.Rel (r.attributes attrs properties) (r'.attributes attrs properties) := by
  induction attrs generalizing properties with
  | nil => exact R.pure properties
  | cons attr attrs ih =>
    rw [Resolver.attributes, Resolver.attributes]
    split
    · exact ih properties
    · exact R.bind (h.attributeType attr) fun ty => ih _

theorem content (h : r.Corresponds R r') (simpleContent : Option String) (mixed : Bool)
    (properties : Properties) :
    R.Rel (r.content simpleContent mixed properties) (r'.content simpleContent mixed properties) := by
  unfold Resolver.content
  split
  · exact R.bind (h.named _) fun ty => R.pure _
  · exact R.pure _
  · exact R.pure _

theorem declare (h : r.Corresponds R r') {own : m Ty} {own' : n Ty} (hown : R.Rel own own')
    (element : Element) : R.Rel (r.declare element own) (r'.declare element own') := by
  unfold Resolver.declare
  dsimp only
  split
  · exact R.bind (h.element _) fun found => R.pure _
  · exact R.bind hown fun ty => R.bind (R.pure _) fun found => R.pure _
  · exact R.bind (R.throw (by simp) fun _ => rfl) fun found => R.pure _

-- The cases are those of the functions of the resolver, which unfold in each of them.
mutual

theorem elementType (h : r.Corresponds R r') :
    ∀ element, R.Rel (r.elementType element) (r'.elementType element)
  | ⟨_, _, _, some type, _, _, _, _, _⟩ => R.bind (h.complexType type) fun _ => R.pure _
  | ⟨_, _, _, none, some type, _, _, _, _⟩ => R.bind (h.simpleType type) fun _ => R.pure _
  | ⟨_, _, some name, none, none, _, _, _, _⟩ => R.bind (h.named name) fun _ => R.pure _
  | ⟨_, _, none, none, none, _, _, _, _⟩ => R.bind (R.pure _) fun _ => R.pure _
termination_by structural element => element

theorem complexType (h : r.Corresponds R r') :
    ∀ type, R.Rel (r.complexType type) (r'.complexType type)
  | ⟨_, some part, attrs, simpleContent, mixed⟩ =>
    R.bind (h.attributes attrs []) fun properties =>
      R.bind (h.content simpleContent mixed properties) fun properties =>
        R.bind (h.particle .once part (properties, 0)) fun _ => R.pure _
  | ⟨_, none, attrs, simpleContent, mixed⟩ =>
    R.bind (h.attributes attrs []) fun properties =>
      R.bind (h.content simpleContent mixed properties) fun _ => R.pure _
termination_by structural type => type

theorem particle (h : r.Corresponds R r') (outer : Multiplicity) :
    ∀ part state, R.Rel (r.particle outer part state) (r'.particle outer part state)
  | .element element, (_, _) => R.bind (h.declare (h.elementType element) element) fun _ => R.pure _
  | .group .choice parts _ _, (_, _) => R.bind (h.branches parts) fun _ => R.pure _
  | .group .sequence parts minOccurs maxOccurs, (properties, choices) =>
    h.particles (outer.within minOccurs maxOccurs) parts (properties, choices)
  | .group .all parts minOccurs maxOccurs, (properties, choices) =>
    h.particles (outer.within minOccurs maxOccurs) parts (properties, choices)
termination_by structural part => part

theorem particles (h : r.Corresponds R r') (outer : Multiplicity) :
    ∀ parts state, R.Rel (r.particles outer parts state) (r'.particles outer parts state)
  | [], state => R.pure state
  | part :: parts, state =>
    R.bind (h.particle outer part state) fun state => h.particles outer parts state
termination_by structural parts => parts

theorem branches (h : r.Corresponds R r') :
    ∀ parts, R.Rel (r.branches parts) (r'.branches parts)
  | [] => R.pure []
  | part :: parts =>
    R.bind (h.particle .once part ([], 0)) fun _ => R.bind (h.branches parts) fun _ => R.pure _
termination_by structural parts => parts

end

theorem definitionType (h : r.Corresponds R r') :
    ∀ definition : Definition, R.Rel (definition.type r) (definition.type r')
  | .complexType type => h.complexType type
  | .simpleType type => h.simpleType type
  | .element declared => h.elementType declared

end Resolver.Corresponds

end Corresponds

/-! ### Names as plans -/

/-- The built-in type with the local part of a name. -/
def builtinPlan (name base : String) : Plan Ty :=
  match builtin? base with
  | some ty => .done ty
  | none => .fail (.unknownType name)

/-- The type with a qualified name. -/
def namePlan (schema : Schema) (name : String) : Plan Ty :=
  let (space, base) := splitName name
  if space = some "xs" ∨ space = some "xsd" then builtinPlan name base
  else
    match schema.definition? (typeKey base) with
    | some _ => .typeOf (typeKey base)
    | none => builtinPlan name base

/-- The global element that a reference names. -/
def referencePlan (schema : Schema) (reference : String) : Plan (String × Ty × Option String) :=
  let (_, base) := splitName reference
  match schema.element? base with
  | none => .fail (.unresolvedReference reference)
  | some element => .ask (elementKey base) fun ty => .done (base, ty, element.documentation)

/-- The resolver that asks for the types of keys. -/
def Schema.planner (schema : Schema) : Resolver Plan where
  named := namePlan schema
  element := referencePlan schema

theorem builtinPlan_within (keys : List String) (name base : String) :
    (builtinPlan name base).Within keys := by
  unfold builtinPlan
  split
  · trivial
  · intro key hkey
    cases hkey

theorem namePlan_within (schema : Schema) (name : String) :
    (namePlan schema name).Within schema.keys := by
  unfold namePlan
  dsimp only
  split
  · exact builtinPlan_within _ _ _
  · split
    · rename_i hfound
      exact ⟨mem_keys_of_definition? hfound, fun ty => trivial⟩
    · exact builtinPlan_within _ _ _

theorem referencePlan_within (schema : Schema) (reference : String) :
    (referencePlan schema reference).Within schema.keys := by
  unfold referencePlan
  dsimp only
  split
  · intro key hkey
    cases hkey
  · rename_i element helement
    have hfound : schema.definition? (elementKey (splitName reference).2) = some (.element element) := by
      rw [definition?_elementKey, helement]
      rfl
    exact ⟨mem_keys_of_definition? hfound, fun ty => trivial⟩

/-- All that is asked for are keys of the schema. -/
theorem planner_within (schema : Schema) :
    schema.planner.Corresponds (.asking schema.keys) schema.planner where
  named := namePlan_within schema
  element := referencePlan_within schema

/-! ### One expansion -/

namespace Schema

/-- How a schema resolves names while the keys on a stack are being expanded. -/
def resolverAt (schema : Schema) (stack : List String) : Resolver (Except ImportError) :=
  schema.resolverAmong (schema.keys.filter fun key => key ∉ stack)

/-- The definition with a key, unless the key is on the stack. -/
def locate (schema : Schema) (stack : List String) (key : String) : Except ImportError Definition :=
  if key ∈ stack then .error (.recursiveReference key)
  else
    match schema.definition? key with
    | some definition => .ok definition
    | none => .error (.unresolvedReference key)

/-- The type of a key while those on a stack are being expanded. -/
def deref (schema : Schema) (stack : List String) (key : String) : Except ImportError Ty :=
  schema.locate stack key >>= fun definition => definition.type (schema.resolverAt (key :: stack))

/-- Converting the definition with the first key comes to the second one. -/
def Uses (schema : Schema) (key other : String) : Prop :=
  ∃ definition, schema.definition? key = some definition ∧
    other ∈ (definition.type schema.planner).asked (schema.deref [key])

end Schema

variable {stack stack' : List String} {key : String} {definition : Definition}

theorem locate_eq_ok_iff : schema.locate stack key = .ok definition ↔
    key ∉ stack ∧ schema.definition? key = some definition := by
  unfold Schema.locate
  by_cases hmem : key ∈ stack
  · simp [hmem]
  · cases hfound : schema.definition? key with
    | none => simp [hmem]
    | some found => simp [hmem]

theorem eq_and_mem_of_locate {recursive : String}
    (h : schema.locate stack key = .error (.recursiveReference recursive)) :
    recursive = key ∧ key ∈ stack := by
  unfold Schema.locate at h
  split at h
  · rename_i hmem
    cases h
    exact ⟨rfl, hmem⟩
  · split at h
    · cases h
    · cases h

theorem resolverAt_nil (schema : Schema) : schema.resolverAt [] = schema.resolver := by
  simp [Schema.resolverAt, Schema.resolverAmong, Schema.resolver]

theorem expanding_bind {α β : Type} {name : String} {available : List String}
    {expand : (rest : List String) → rest.length < available.length → Except ImportError α}
    {f : α → Except ImportError β} :
    (Expansion.expanding name available fun rest h => expand rest h >>= f) =
      Expansion.expanding name available expand >>= f := by
  unfold Expansion.expanding
  split
  · rfl
  · rfl

/-- Expanding a definition among the keys that are not on the stack. -/
theorem expanding_eq_deref (h : schema.definition? key = some definition) :
    (Expansion.expanding key (schema.keys.filter fun other => other ∉ stack) fun rest _ =>
      definition.type (schema.resolverAmong rest)) = schema.deref stack key := by
  unfold Expansion.expanding
  by_cases hmem : key ∈ stack
  · have hlocate : schema.locate stack key = .error (.recursiveReference key) := if_pos hmem
    rw [dif_neg (by simp [hmem]), Schema.deref, hlocate]
    rfl
  · have hlocate := locate_eq_ok_iff.mpr ⟨hmem, h⟩
    have hkey := mem_keys_of_definition? h
    rw [dif_pos (by simp [hmem, hkey]), Schema.deref, hlocate, ok_bind, Schema.resolverAt,
      filter_notMem_cons]

theorem answer_namePlan (stack : List String) (name : String) :
    (namePlan schema name).answer (schema.deref stack) = (schema.resolverAt stack).named name := by
  change _ = expandType schema _ name
  rw [expandType, namePlan]
  dsimp only
  generalize (splitName name).2 = base
  split
  · unfold builtinPlan
    cases builtin? base with
    | some ty => rfl
    | none => rfl
  · cases hcomplex : schema.complexType? base with
    | some type =>
      have hfound : schema.definition? (typeKey base) = some (.complexType type) := by
        rw [definition?_typeKey, hcomplex]
        rfl
      simp only [hfound]
      exact Plan.answer_typeOf.trans (expanding_eq_deref hfound).symm
    | none =>
      cases hsimple : schema.simpleType? base with
      | some type =>
        have hfound : schema.definition? (typeKey base) = some (.simpleType type) := by
          rw [definition?_typeKey, hcomplex, hsimple]
          rfl
        simp only [hfound]
        exact Plan.answer_typeOf.trans (expanding_eq_deref hfound).symm
      | none =>
        have hfound : schema.definition? (typeKey base) = none := by
          rw [definition?_typeKey, hcomplex, hsimple]
          rfl
        simp only [hfound, builtinPlan]
        cases builtin? base with
        | some ty => rfl
        | none => rfl

theorem answer_referencePlan (stack : List String) (reference : String) :
    (referencePlan schema reference).answer (schema.deref stack) =
      (schema.resolverAt stack).element reference := by
  change _ = expandElement schema _ reference
  rw [expandElement, referencePlan]
  dsimp only
  generalize (splitName reference).2 = base
  cases helement : schema.element? base with
  | none => rfl
  | some element =>
    have hfound : schema.definition? (elementKey base) = some (.element element) := by
      rw [definition?_elementKey, helement]
      rfl
    dsimp only
    rw [Plan.answer, ← expanding_eq_deref hfound, ← expanding_bind]
    rfl

/-- With the types of the keys, plans come to what the resolver of the schema finds, whatever is on the
stack. -/
theorem planner_answers (schema : Schema) (stack : List String) :
    schema.planner.Corresponds (.answering (schema.deref stack)) (schema.resolverAt stack) where
  named := answer_namePlan stack
  element := answer_referencePlan stack

/-! ### All expansions -/

/-- The plans of the definitions of a schema. -/
def Schema.definitions (schema : Schema) : Definitions where
  names := schema.keys
  locate stack key := do
    let definition ← schema.locate stack key
    return definition.type schema.planner
  within h := by
    obtain ⟨definition, hlocate, hplan⟩ := bind_eq_ok_iff.mp h
    cases hplan
    exact (planner_within schema).definitionType definition
  notMem h := by
    obtain ⟨definition, hlocate, _⟩ := bind_eq_ok_iff.mp h
    exact (locate_eq_ok_iff.mp hlocate).1
  mono hsub h := by
    obtain ⟨definition, hlocate, hplan⟩ := bind_eq_ok_iff.mp h
    obtain ⟨hnew, hfound⟩ := locate_eq_ok_iff.mp hlocate
    have hlocate' := locate_eq_ok_iff.mpr ⟨fun hmem => hnew (hsub hmem), hfound⟩
    exact bind_eq_ok_iff.mpr ⟨definition, hlocate', hplan⟩
  recursive {stack key recursive} h := by
    cases hlocate : schema.locate stack key with
    | error failure =>
      rw [hlocate] at h
      cases h
      exact eq_and_mem_of_locate hlocate
    | ok definition =>
      rw [hlocate] at h
      cases h

theorem deref_solution (schema : Schema) : schema.definitions.Solution schema.deref := by
  intro stack key
  have hplan : ∀ definition : Definition,
      (definition.type schema.planner).answer (schema.deref (key :: stack)) =
        definition.type (schema.resolverAt (key :: stack)) :=
    (planner_answers schema (key :: stack)).definitionType
  rw [Schema.deref]
  simp only [hplan, Schema.definitions, bind_assoc, pure_bind]

theorem covers_uses (schema : Schema) : schema.definitions.Covers schema.deref schema.Uses := by
  intro stack key p other h hasked
  obtain ⟨definition, hlocate, hplan⟩ := bind_eq_ok_iff.mp h
  cases hplan
  exact ⟨definition, (locate_eq_ok_iff.mp hlocate).2, hasked⟩

/-! ### Tasks -/

/-- The object with the global elements of a schema. -/
def rootObject : List (String × Property Ty) → Ty
  | [(name, p)] => .object [(name, p)] false
  | several => .closedObject (several.map fun (name, p) => (name, oneOfMany p))

/-- What is converted, by what comes out of it. -/
inductive Task : Type → Type where
  | named (name : String) : Task Ty
  | simpleType (type : SimpleType) : Task Ty
  | complexType (type : ComplexType) : Task Ty
  | element (element : Element) : Task (String × Property Ty)
  | particle (outer : Multiplicity) (part : Particle) (state : Properties × Nat) :
    Task (Properties × Nat)
  | root (elements : List Element) : Task Ty

namespace Task

variable {α : Type}

/-- The outcome of a task with a resolver. -/
def run {m : Type → Type} [Monad m] [MonadExceptOf ImportError m] (r : Resolver m) {α : Type} :
    Task α → m α
  | named name => r.named name
  | simpleType type => r.simpleType type
  | complexType type => r.complexType type
  | element declared => r.declare declared (r.elementType declared)
  | particle outer part state => r.particle outer part state
  | root elements => do
    let declared ← elements.mapM fun element => r.declare element (r.elementType element)
    return rootObject declared

theorem run_corresponds {m n : Type → Type} [Monad m] [Monad n] [MonadExceptOf ImportError m]
    [MonadExceptOf ImportError n] {R : Correspondence m n} {r : Resolver m} {r' : Resolver n}
    (h : r.Corresponds R r') : ∀ task : Task α, R.Rel (task.run r) (task.run r')
  | named name => h.named name
  | simpleType type => h.simpleType type
  | complexType type => h.complexType type
  | element declared => h.declare (h.elementType declared) declared
  | particle outer part state => h.particle outer part state
  | root _ => R.bind (R.mapM fun element _ => h.declare (h.elementType element) element) fun _ => R.pure _

/-- The plan of a task. -/
def plan (schema : Schema) (task : Task α) : Plan α :=
  task.run schema.planner

/-- Carrying out a task with some keys on the stack ends with an outcome and leaves a stack. -/
def Runs (schema : Schema) (task : Task α) (stack : List String) (outcome : Except ImportError α)
    (after : List String) : Prop :=
  schema.definitions.Runs (task.plan schema) stack outcome after

theorem plan_within (schema : Schema) (task : Task α) : (task.plan schema).Within schema.keys :=
  run_corresponds (planner_within schema) task

theorem answer_plan (schema : Schema) (task : Task α) (stack : List String) :
    (task.plan schema).answer (schema.deref stack) = task.run (schema.resolverAt stack) :=
  run_corresponds (planner_answers schema stack) task

/-- A task always ends, with one outcome and the stack as it was. -/
theorem runs_iff {task : Task α} {outcome : Except ImportError α} {after : List String} :
    task.Runs schema stack outcome after ↔
      outcome = task.run (schema.resolverAt stack) ∧ after = stack := by
  rw [← answer_plan]
  exact Definitions.runs_iff (deref_solution schema) (task.plan_within schema)

theorem run_mono {task : Task α} {value : α} (hsub : stack' ⊆ stack)
    (h : task.run (schema.resolverAt stack) = .ok value) :
    task.run (schema.resolverAt stack') = .ok value := by
  rw [← answer_plan] at h ⊢
  refine Plan.answer_mono (task.plan_within schema) ?_ h
  intro key _ t ht
  exact (deref_solution schema).mono hsub ht

theorem run_cycle {task : Task α} {recursive : String}
    (h : task.run (schema.resolverAt stack) = .error (.recursiveReference recursive)) :
    (∃ first ∈ (task.plan schema).asked (schema.deref stack),
      Relation.ReflTransGen schema.Uses first recursive) ∧
    (recursive ∈ stack ∨ Relation.TransGen schema.Uses recursive recursive) := by
  rw [← answer_plan] at h
  exact (deref_solution schema).answer_cycle (covers_uses schema) (task.plan_within schema) h

end Task

theorem toType_eq_run (schema : Schema) :
    schema.toType = (Task.root schema.elements).run (schema.resolverAt []) := by
  rw [resolverAt_nil, Schema.toType, Task.run]
  congr 1
  funext declared
  rcases declared with _ | ⟨first, _ | ⟨second, others⟩⟩
  · rfl
  · rfl
  · rfl

/-- **Expanding definitions ends, shares types and finds real cycles only.** Converting an element, a name, a
type or a particle has one outcome, with the stack as it was. What comes out is the same with any part of the
stack. A key is called recursive only if it is on the stack from the start or its expansion comes to it
again, so the conversion of a whole schema finds it only on a cycle. -/
theorem expansion_of_definitions (schema : Schema) :
    (∀ {α : Type} (task : Task α) stack outcome after, task.Runs schema stack outcome after ↔
      outcome = task.run (schema.resolverAt stack) ∧ after = stack) ∧
    (∀ {α : Type} (task : Task α) stack stack' value, stack' ⊆ stack →
      task.Runs schema stack (.ok value) stack → task.Runs schema stack' (.ok value) stack') ∧
    (∀ {α : Type} (task : Task α) stack recursive,
      task.Runs schema stack (.error (.recursiveReference recursive)) stack →
        (∃ first ∈ (task.plan schema).asked (schema.deref stack),
          Relation.ReflTransGen schema.Uses first recursive) ∧
        (recursive ∈ stack ∨ Relation.TransGen schema.Uses recursive recursive)) ∧
    (Task.root schema.elements).Runs schema [] schema.toType [] ∧
    ∀ recursive, schema.toType = .error (.recursiveReference recursive) →
      Relation.TransGen schema.Uses recursive recursive := by
  refine ⟨?_, ?_, ?_, ?_, ?_⟩
  · intro α task stack outcome after
    exact Task.runs_iff
  · intro α task stack stack' value hsub h
    have hvalue := (Task.runs_iff.mp h).1.symm
    exact Task.runs_iff.mpr ⟨(Task.run_mono hsub hvalue).symm, rfl⟩
  · intro α task stack recursive h
    exact Task.run_cycle (Task.runs_iff.mp h).1.symm
  · exact Task.runs_iff.mpr ⟨toType_eq_run schema, rfl⟩
  · intro recursive h
    rw [toType_eq_run] at h
    exact (Task.run_cycle h).2.resolve_left List.not_mem_nil

/-- A list with the rest of it inside. -/
def listType : ComplexType where
  name := some "List"
  content := some (.element { name := some "rest", typeName := some "List" })

/-- A schema with a type that refers to itself and one that does not. -/
def looping : Schema where
  elements := [{ name := some "list", typeName := some "List" }]
  complexTypes := [listType]
  simpleTypes := [{ name := some "Code" }]

theorem named_of_deref {name : String} (hspace : splitName name = (none, name))
    (hfound : schema.definition? (typeKey name) = some definition) :
    (schema.resolverAt stack).named name = schema.deref stack (typeKey name) := by
  rw [← answer_namePlan stack name, namePlan, hspace]
  simp only [hfound]
  exact Plan.answer_typeOf

/-- A type that is used twice is found also while another one is being expanded, and only the one that
refers to itself is recursive. -/
theorem expansion_of_definitions_of_loop :
    let pair : ComplexType := { attributes := [
      { name := "first", typeName := some "Code" }, { name := "second", typeName := some "Code" }] }
    let object : Ty := .object [("@first", .optional .string), ("@second", .optional .string)] false
    looping.toType = .error (.recursiveReference "type List") ∧
      Relation.TransGen looping.Uses "type List" "type List" ∧
      (Task.complexType pair).Runs looping ["type List"] (.ok object) ["type List"] ∧
      (Task.complexType pair).Runs looping [] (.ok object) [] := by
  intro pair object
  have hlist : looping.definition? (typeKey "List") = some (.complexType listType) := rfl
  have hcode : looping.definition? (typeKey "Code") = some (.simpleType { name := some "Code" }) := rfl
  have hagain : (looping.resolverAt ["type List"]).named "List" =
      .error (.recursiveReference "type List") := by
    rw [named_of_deref rfl hlist]
    rfl
  have hfirst : (looping.resolverAt []).named "List" = .error (.recursiveReference "type List") := by
    rw [named_of_deref rfl hlist]
    change (looping.resolverAt ["type List"]).complexType listType = _
    simp [listType, Resolver.complexType, Resolver.attributes, Resolver.content, Resolver.particle,
      Resolver.declare, Resolver.elementType, hagain, bind, Except.bind, pure, Except.pure]
  have helements : looping.elements = [{ name := some "list", typeName := some "List" }] := rfl
  have hrecursive : looping.toType = .error (.recursiveReference "type List") := by
    rw [toType_eq_run, helements]
    simp [Task.run, Resolver.declare, Resolver.elementType, hfirst, bind, Except.bind]
  have hstring : (looping.resolverAt ["type List"]).named "Code" = .ok .string := by
    rw [named_of_deref rfl hcode]
    rfl
  have hpair : (Task.complexType pair).run (looping.resolverAt ["type List"]) = .ok object := by
    change ((looping.resolverAt ["type List"]).attributes pair.attributes [] >>= fun properties =>
      .ok (Ty.object properties false)) = _
    simp only [pair, Resolver.attributes, Resolver.attributeType, hstring]
    rfl
  obtain ⟨hruns, hshared, _, _, hcycle⟩ := expansion_of_definitions looping
  have hopen := (hruns (Task.complexType pair) ["type List"] _ _).mpr ⟨hpair.symm, rfl⟩
  exact ⟨hrecursive, hcycle _ hrecursive, hopen, hshared _ _ _ _ (List.nil_subset _) hopen⟩

end SchemaInfer.Xsd
