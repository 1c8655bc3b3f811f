import SchemaInfer.Proofs.ImportedTypes
import SchemaInfer.Proofs.JsonSchemaStability
import SchemaInfer.Proofs.UnusedBindings

/-!
# Paths compose

A path may be bound as it stands, it may be followed from the type that its first name is bound to, and a
property may be taken of the type of an expression. In the scope of an input all three are in use, since
the properties of the input are bound under their paths. They agree. Where only names of one segment are
bound, a path that is bound as it stands has no other segments, so that a path always comes down to its
first name and the segments after it (`Scope.resolveIn?_of_plain`), and one more segment is one more step.
The bindings for the properties of the input give what following the path gives, so they can be left out.
-/

namespace SchemaInfer

/-- A name that is a segment of a path as it stands. -/
def IsPlainName (name : String) : Prop :=
  name ≠ "" ∧ ∀ c ∈ name.toList, c ≠ '.' ∧ Segment.isBracket c = false

instance : DecidablePred IsPlainName := fun name =>
  decidable_of_iff ((name != "" && name.toList.all fun c => c != '.' && !Segment.isBracket c) = true)
    (by simp [IsPlainName])

namespace IsPlainName

variable {name : String}

theorem notMem_dot (h : IsPlainName name) : '.' ∉ name.toList :=
  fun hmem => (h.2 '.' hmem).1 rfl

theorem ofChars? (h : IsPlainName name) : Segment.ofChars? name.toList = some ⟨name, 0⟩ :=
  Segment.ofChars?_of_plain fun c hc => (h.2 c hc).2

end IsPlainName

/-! ### Following segments -/

namespace Ty

variable {t : Ty}

theorem follow?_singleton {segment : List Char} : t.follow? [segment] = t.descend? segment :=
  Option.bind_fun_some _

theorem follow?_append {segments more : List (List Char)} :
    t.follow? (segments ++ more) = (t.follow? segments).bind (follow? more) := by
  induction segments generalizing t with
  | nil => rfl
  | cons segment segments ih =>
    rw [List.cons_append, follow?, follow?, Option.bind_assoc]
    congr 1
    funext u
    exact ih

theorem descend?_of_plain {name : String} (h : IsPlainName name) :
    t.descend? name.toList = t.select? name := by
  simp [descend?, h.ofChars?, h.1, indexed?]

/-- The properties of an object type; other types have none. -/
def ownProperties : Ty → Properties
  | object ps _ => ps
  | _ => []

theorem nodup_ownProperties (ht : t.WellFormed) : (Entries.keys t.ownProperties).Nodup := by
  cases t with
  | object ps isOpen => exact (WellFormed.object_iff.mp ht).1
  | _ => exact List.nodup_nil

theorem select?_ownProperty {name : String} {p : Property Ty} (ht : t.WellFormed)
    (hp : (name, p) ∈ t.ownProperties) : t.select? name = some p.ty := by
  cases t with
  | object ps isOpen =>
    have hlookup : ps.lookup name = some p :=
      (Entries.lookup_eq_some_iff_mem (WellFormed.object_iff.mp ht).1).mpr hp
    rw [select?, hlookup]
    rfl
  | _ => cases hp

end Ty

namespace Scope

/-! ### Scopes that bind plain names only -/

/-- All bindings in all levels are for plain names. -/
def BindsPlain (scope : Scope) : Prop :=
  ∀ bindings ∈ scope.levels, ∀ name ∈ Entries.keys bindings, IsPlainName name

variable {scope : Scope} {name path segment : String} {head : List Char} {segments : List (List Char)}
  {t ty : Ty}

theorem BindsPlain.enter (hscope : scope.BindsPlain) (hname : IsPlainName name) :
    (scope.enter name t).BindsPlain :=
  List.forall_mem_cons.mpr ⟨List.forall_mem_singleton.mpr hname, hscope⟩

theorem BindsPlain.enterAll {names : List String} {types : List Ty} (hscope : scope.BindsPlain)
    (hnames : ∀ name ∈ names, IsPlainName name) : (scope.enterAll names types).BindsPlain := by
  induction names generalizing types scope with
  | nil => exact hscope
  | cons name names ih =>
    obtain ⟨hname, hnames⟩ := List.forall_mem_cons.mp hnames
    cases types with
    | nil => exact ih (hscope.enter hname) hnames
    | cons t ts => exact ih (hscope.enter hname) hnames

/-- A path comes down to its first name, wherever that is bound, and the segments after it. -/
theorem resolveIn?_of_plain {levels : List Bindings}
    (hlevels : ∀ bindings ∈ levels, ∀ name ∈ Entries.keys bindings, IsPlainName name)
    (hsplit : Text.splitAt '.' path.toList = head :: segments) :
    resolveIn? path head segments levels =
      (Segment.ofChars? head).bind fun s =>
        (levels.findSome? fun bindings => bindings.lookup s.name).bind fun root =>
          (root.indexed? s.indexes).bind (Ty.follow? segments) := by
  induction levels with
  | nil => cases Segment.ofChars? head <;> rfl
  | cons bindings outer ih =>
    obtain ⟨hbindings, houter⟩ := List.forall_mem_cons.mp hlevels
    cases hlookup : bindings.lookup path with
    | some t =>
      -- the whole path is bound, so it is its own first segment
      have hplain : IsPlainName path :=
        hbindings path (Entries.mem_keys_of_mem (Entries.mem_of_lookup hlookup))
      rw [Text.splitAt_of_notMem hplain.notMem_dot] at hsplit
      obtain ⟨rfl, rfl⟩ := List.cons.inj hsplit
      rw [resolveIn?_of_lookup hlookup, hplain.ofChars?, Option.bind_some, List.findSome?_cons, hlookup]
      rfl
    | none =>
      cases hread : Segment.ofChars? head with
      | none => exact resolveIn?_of_unreadable hlookup hread
      | some s =>
        rw [Option.bind_some, List.findSome?_cons]
        cases hroot : bindings.lookup s.name with
        | some root => exact resolveIn?_of_root hlookup hread hroot
        | none => rw [resolveIn?_of_passed hlookup hread hroot, ih houter, hread, Option.bind_some]

/-- A path with another one after it goes on from where the first one leads. -/
theorem resolve?_append_path (hscope : scope.BindsPlain) (rest : String) :
    scope.resolve? (path ++ "." ++ rest) =
      (scope.resolve? path).bind (Ty.follow? (Text.splitAt '.' rest.toList)) := by
  obtain ⟨segments, hsplit⟩ := Text.splitAt_eq_cons '.' path.toList
  have hchars : (path ++ "." ++ rest).toList = path.toList ++ '.' :: rest.toList := by
    rw [String.toList_append, String.toList_append, List.append_assoc]
    rfl
  have hsplit' : Text.splitAt '.' (path ++ "." ++ rest).toList =
      path.toList.takeWhile (· != '.') :: (segments ++ Text.splitAt '.' rest.toList) := by
    rw [hchars, Text.splitAt_append, hsplit, List.cons_append]
  unfold resolve?
  rw [hsplit, hsplit']
  dsimp only
  rw [resolveIn?_of_plain hscope hsplit, resolveIn?_of_plain hscope hsplit']
  simp only [Option.bind_assoc]
  congr! 6
  exact Ty.follow?_append

theorem resolve?_append (hscope : scope.BindsPlain) (hsegment : '.' ∉ segment.toList) :
    scope.resolve? (path ++ "." ++ segment) =
      (scope.resolve? path).bind (Ty.descend? segment.toList) := by
  rw [resolve?_append_path hscope, Text.splitAt_of_notMem hsegment]
  congr 1
  funext t
  exact Ty.follow?_singleton

/-! ### The scope of an input -/

/-- The properties of an input, each under its path. -/
def propertyBindings (ty : Ty) : Bindings :=
  ty.ownProperties.map fun entry => (inputName ++ "." ++ entry.1, entry.2.ty)

theorem isPlainName_inputName : IsPlainName inputName := by decide

theorem toList_propertyPath :
    (inputName ++ "." ++ name).toList = inputName.toList ++ '.' :: name.toList := by
  rw [String.toList_append, String.toList_append, List.append_assoc]
  rfl

theorem propertyPath_injective : Function.Injective fun name => inputName ++ "." ++ name := by
  intro name other heq
  have hchars := congrArg String.toList heq
  dsimp only at hchars
  rw [toList_propertyPath, toList_propertyPath] at hchars
  exact String.toList_inj.mp (List.cons.inj (List.append_cancel_left hchars)).2

theorem propertyPath_ne_inputName (name : String) : inputName ++ "." ++ name ≠ inputName := by
  intro heq
  have hlength := congrArg List.length (congrArg String.toList heq)
  rw [toList_propertyPath, List.length_append, List.length_cons] at hlength
  omega

theorem exists_of_lookup_propertyBindings (h : (propertyBindings ty).lookup path = some t) :
    ∃ name p, (name, p) ∈ ty.ownProperties ∧ path = inputName ++ "." ++ name ∧ t = p.ty := by
  obtain ⟨⟨name, p⟩, hmem, heq⟩ := List.mem_map.mp (Entries.mem_of_lookup h)
  obtain ⟨rfl, rfl⟩ := Prod.mk.inj heq
  exact ⟨name, p, hmem, rfl, rfl⟩

theorem lookup_propertyBindings_of_notMem (h : '.' ∉ path.toList) :
    (propertyBindings ty).lookup path = none := by
  refine Option.eq_none_iff_forall_ne_some.mpr fun t hlookup => ?_
  obtain ⟨name, p, _, rfl, _⟩ := exists_of_lookup_propertyBindings hlookup
  rw [toList_propertyPath] at h
  exact h (List.mem_append_right _ List.mem_cons_self)

theorem nodup_propertyBindings (ht : ty.WellFormed) :
    (Entries.keys (propertyBindings ty)).Nodup := by
  have hkeys : Entries.keys (propertyBindings ty) =
      (Entries.keys ty.ownProperties).map fun name => inputName ++ "." ++ name := by
    simp [propertyBindings, Entries.keys, Function.comp_def]
  rw [hkeys]
  exact (Ty.nodup_ownProperties ht).map propertyPath_injective

theorem foldl_bind_eq {ps : Properties} :
    ps.foldl (fun scope entry => scope.bind (inputName ++ "." ++ entry.1) entry.2.ty) scope =
      { scope with
        bindings := (ps.map fun entry => (inputName ++ "." ++ entry.1, entry.2.ty)).foldl
          (fun acc entry => Entries.insert entry.1 entry.2 acc) scope.bindings } := by
  induction ps generalizing scope with
  | nil => rfl
  | cons entry ps ih =>
    rw [List.foldl_cons, ih]
    rfl

theorem ofInput_eq (ht : ty.WellFormed) :
    Scope.ofInput ty = { bindings := propertyBindings ty ++ [(inputName, ty)], outer := [] } := by
  have hfold : Scope.ofInput ty =
      (ty.ownProperties.foldl
        (fun scope entry => scope.bind (inputName ++ "." ++ entry.1) entry.2.ty) empty).bind
        inputName ty := by
    cases ty <;> rfl
  have hlist : (propertyBindings ty).foldl (fun acc entry => Entries.insert entry.1 entry.2 acc) [] =
      propertyBindings ty :=
    Entries.ofList_eq_self (nodup_propertyBindings ht)
  have hfresh : inputName ∉ Entries.keys (propertyBindings ty) :=
    Entries.lookup_eq_none_iff.mp (lookup_propertyBindings_of_notMem isPlainName_inputName.notMem_dot)
  rw [hfold, foldl_bind_eq, bind, ← propertyBindings]
  simp only [empty]
  rw [hlist, Entries.insert_of_notMem_keys hfresh]

theorem find?_propertyPath {p : Property Ty} (ht : ty.WellFormed) (hp : (name, p) ∈ ty.ownProperties) :
    (Scope.ofInput ty).find? (inputName ++ "." ++ name) = some p.ty := by
  have hmem : (inputName ++ "." ++ name, p.ty) ∈ propertyBindings ty :=
    List.mem_map.mpr ⟨(name, p), hp, rfl⟩
  have hlookup := (Entries.lookup_eq_some_iff_mem (nodup_propertyBindings ht)).mpr hmem
  rw [ofInput_eq ht, find?, levels, List.findSome?_cons, List.lookup_append, hlookup]
  rfl

/-- Following the path of a property gives the type of the property, as the binding for it does. -/
theorem resolve?_ofInput (ht : ty.WellFormed)
    (hplain : ∀ name ∈ Entries.keys ty.ownProperties, IsPlainName name) :
    (Scope.ofInput ty).resolve? path = (empty.bind inputName ty).resolve? path := by
  obtain ⟨segments, hsplit⟩ := Text.splitAt_eq_cons '.' path.toList
  have hinput := isPlainName_inputName
  have hbound : List.lookup inputName [(inputName, ty)] = some ty := List.lookup_cons_self
  rw [ofInput_eq ht]
  unfold resolve?
  rw [hsplit]
  dsimp only [levels, empty, bind, Entries.insert]
  cases hlookup : (propertyBindings ty).lookup path with
  | some t =>
    obtain ⟨name, p, hp, rfl, rfl⟩ := exists_of_lookup_propertyBindings hlookup
    have hname : IsPlainName name := hplain name (Entries.mem_keys_of_mem hp)
    have hother : List.lookup (inputName ++ "." ++ name) [(inputName, ty)] = none := by
      rw [List.lookup_cons, beq_false_of_ne (propertyPath_ne_inputName name), List.lookup_nil]
    have hpieces : Text.splitAt '.' (inputName ++ "." ++ name).toList =
        [inputName.toList, name.toList] := by
      rw [toList_propertyPath, Text.splitAt_append_of_notMem hname.notMem_dot,
        Text.splitAt_of_notMem hinput.notMem_dot]
      rfl
    obtain ⟨hhead, rfl⟩ := List.cons.inj (hsplit.symm.trans hpieces)
    rw [hhead, resolveIn?_of_root hother hinput.ofChars? hbound, Ty.indexed?, Option.bind_some,
      Ty.follow?_singleton, Ty.descend?_of_plain hname, Ty.select?_ownProperty ht hp]
    apply resolveIn?_of_lookup
    rw [List.lookup_append, hlookup, Option.some_or]
  | none =>
    have hpath : (propertyBindings ty ++ [(inputName, ty)]).lookup path =
        List.lookup path [(inputName, ty)] := by
      rw [List.lookup_append, hlookup, Option.none_or]
    -- the first name of a path has no dot, so it is not the path of a property
    have hfirst : ∀ s, Segment.ofChars? (path.toList.takeWhile (· != '.')) = some s →
        (propertyBindings ty ++ [(inputName, ty)]).lookup s.name =
          List.lookup s.name [(inputName, ty)] := by
      intro s hread
      obtain ⟨indexes, htext, _⟩ := Segment.ofChars?_eq_some_iff.mp hread
      have hdot : '.' ∉ s.name.toList := by
        intro hmem
        have hmem' : '.' ∈ path.toList.takeWhile (· != '.') := by
          rw [htext.eq_append]
          exact List.mem_append_left _ hmem
        simpa using List.mem_takeWhile_imp hmem'
      rw [List.lookup_append, lookup_propertyBindings_of_notMem hdot, Option.none_or]
    cases hwhole : List.lookup path [(inputName, ty)] with
    | some t => rw [resolveIn?_of_lookup (hpath.trans hwhole), resolveIn?_of_lookup hwhole]
    | none =>
      cases hread : Segment.ofChars? (path.toList.takeWhile (· != '.')) with
      | none =>
        rw [resolveIn?_of_unreadable (hpath.trans hwhole) hread, resolveIn?_of_unreadable hwhole hread]
      | some s =>
        have hroot := hfirst s hread
        cases hname : List.lookup s.name [(inputName, ty)] with
        | some root =>
          rw [resolveIn?_of_root (hpath.trans hwhole) hread (hroot.trans hname),
            resolveIn?_of_root hwhole hread hname]
        | none =>
          rw [resolveIn?_of_passed (hpath.trans hwhole) hread (hroot.trans hname),
            resolveIn?_of_passed hwhole hread hname]

end Scope

/-! ### Paths and properties in expressions -/

namespace Typing

variable {library : Library} {scope : Scope} {path property : String} {location : Option Location}
  {t : Ty}

theorem infer_path_eq_ok_iff :
    infer library scope (.path path location) = .ok t ↔ scope.resolve? path = some t := by
  rw [infer]
  cases scope.resolve? path with
  | none => exact iff_of_false (fun h => by cases h) (fun h => by cases h)
  | some u => simp

theorem infer_member_eq_ok_iff {object : Expr} :
    infer library scope (.member object property location) = .ok t ↔
      ∃ u, infer library scope object = .ok u ∧ u.descend? property.toList = some t := by
  rw [infer, bind_eq_ok_iff]
  refine exists_congr fun u => and_congr_right fun _ => ?_
  cases u.descend? property.toList with
  | none => exact iff_of_false (fun h => by cases h) (fun h => by cases h)
  | some v =>
    rw [Option.some.injEq]
    exact ⟨fun h => Except.ok.inj h, fun h => congrArg Except.ok h⟩

/-- **Paths compose.** In the scope of an imported input, and in scopes inside it, a path with one more
segment has the type that the segment, taken as a property, has of the shorter path. The bindings for the
properties of the input agree with following their paths, and leaving them out changes nothing. -/
theorem infer_path_append_iff_member {source : Source} {ty : Ty} {names : List String}
    (types : List Ty) (library : Library) (hty : source.toType = .ok ty)
    (hproperties : ∀ name ∈ Entries.keys ty.ownProperties, IsPlainName name)
    (hnames : ∀ name ∈ names, IsPlainName name) :
    let scope := (Scope.ofInput ty).enterAll names types
    (∀ path segment t l₁ l₂ l₃, '.' ∉ segment.toList →
      (infer library scope (.path (path ++ "." ++ segment) l₁) = .ok t ↔
        infer library scope (.member (.path path l₂) segment l₃) = .ok t)) ∧
    (∀ name p, (name, p) ∈ ty.ownProperties →
      (Scope.ofInput ty).find? (Scope.inputName ++ "." ++ name) = some p.ty ∧
        ty.descend? name.toList = some p.ty) ∧
    ∀ e, infer library scope e =
      infer library ((Scope.empty.bind Scope.inputName ty).enterAll names types) e := by
  intro scope
  have hwf : ty.WellFormed := source.toType_wellFormed.of_eq_ok hty
  have hagree : ∀ paths,
      Scope.AgreeOn paths scope ((Scope.empty.bind Scope.inputName ty).enterAll names types) :=
    fun _ => Scope.AgreeOn.enterAll fun _ _ => Scope.resolve?_ofInput hwf hproperties
  have hinput : (Scope.empty.bind Scope.inputName ty).BindsPlain :=
    List.forall_mem_singleton.mpr (List.forall_mem_singleton.mpr Scope.isPlainName_inputName)
  refine ⟨?_, ?_, fun e => infer_congr (hagree e.paths)⟩
  · intro path segment t l₁ l₂ l₃ hsegment
    rw [infer_congr (hagree _), infer_congr (hagree _), infer_path_eq_ok_iff,
      Scope.resolve?_append (hinput.enterAll hnames) hsegment, Option.bind_eq_some_iff,
      infer_member_eq_ok_iff]
    simp only [infer_path_eq_ok_iff]
  · intro name p hp
    have hplain : IsPlainName name := hproperties name (Entries.mem_keys_of_mem hp)
    exact ⟨Scope.find?_propertyPath hwf hp,
      (Ty.descend?_of_plain hplain).trans (Ty.select?_ownProperty hwf hp)⟩

/-- The path leads through an object and into an array, below a scope that binds the name of a property. -/
theorem infer_path_append_iff_member_below_property :
    let order : Ty := .object [("tags", .mandatory (.array .string))] false
    let ty : Ty := .object [("order", .mandatory order)] false
    let scope : Scope := (Scope.ofInput ty).enterAll ["order"] [.integer]
    ∃ document, (Source.jsonSchema document).toType = .ok ty ∧
      (∀ name ∈ Entries.keys ty.ownProperties, IsPlainName name) ∧
      (∀ name ∈ ["order"], IsPlainName name) ∧ '.' ∉ "tags[0]".toList ∧
      infer .empty scope (.path "input.order.tags[0]" none) = .ok .string ∧
      infer .empty scope (.member (.path "input.order" none) "tags[0]" none) = .ok .string := by
  intro order ty scope
  have hty : ∃ document, (Source.jsonSchema document).toType = .ok ty :=
    ⟨_, JsonSchema.toType_of_ofType (t := ty) (by decide) rfl⟩
  obtain ⟨document, hty⟩ := hty
  have hproperties : ∀ name ∈ Entries.keys ty.ownProperties, IsPlainName name := by decide
  have hnames : ∀ name ∈ ["order"], IsPlainName name := by decide
  have hpath : infer .empty scope (.path "input.order.tags[0]" none) = .ok .string := by rfl
  have hcompose := (infer_path_append_iff_member [.integer] .empty hty hproperties hnames).1
  exact ⟨document, hty, hproperties, hnames, by decide, hpath,
    (hcompose "input.order" "tags[0]" .string none none none (by decide)).mp hpath⟩

end Typing

end SchemaInfer
