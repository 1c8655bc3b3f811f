import SchemaInfer.Path
import SchemaInfer.Proofs.Calls
import SchemaInfer.Proofs.Values

/-!
# Paths into values

A path can be followed from a value as well as from a type. From a value it may reach several values or
none: a name selects a property if the object has it, and in an array it is looked up in every element, a
numeric name and an index suffix select any element, and null stays null. What is reached from a value of
a type conforms to the type that the path leads to from there (`Ty.Describes.reached`). The proof goes
along the segments, and for each of them along the type, and asks little of what it means to conform: it
holds for `Json.Conforms`, and also where objects may have properties that their type does not declare.
-/

namespace SchemaInfer

/-! ### Following a path from a value -/

namespace Json

mutual

/-- The values that a name selects. -/
def named (name : String) : Json → List Json
  | null => [null]
  | object entries => (entries.filter fun entry => entry.1 == name).map Prod.snd
  | array items => if Ty.isNumeric name then items else namedInAll name items
  | bool _ | int _ | float _ | string _ => []

def namedInAll (name : String) : List Json → List Json
  | [] => []
  | item :: items => item.named name ++ namedInAll name items

end

/-- The values that an index suffix selects, whatever the index. -/
def elements : Json → List Json
  | null => [null]
  | array items => items
  | bool _ | int _ | float _ | string _ | object _ => []

/-- The values after a number of index suffixes. -/
def elementsAt : (indexes : Nat) → Json → List Json
  | 0, v => [v]
  | n + 1, v => v.elements.flatMap (elementsAt n)

/-- The values that one segment reaches. An empty name stays where it is. -/
def reachedBy (segment : List Char) (v : Json) : List Json :=
  match Segment.ofChars? segment with
  | none => []
  | some s => (if s.name.isEmpty then [v] else v.named s.name).flatMap (elementsAt s.indexes)

/-- The values that a list of segments reaches. -/
def reached : List (List Char) → Json → List Json
  | [], v => [v]
  | segment :: segments, v => (v.reachedBy segment).flatMap (reached segments)

variable {name : String} {v w : Json} {items : List Json} {entries : List (String × Json)}

theorem mem_namedInAll : w ∈ namedInAll name items ↔ ∃ item ∈ items, w ∈ item.named name := by
  induction items with
  | nil => simp [namedInAll]
  | cons item items ih => simp [namedInAll, ih]

theorem mem_named_object : w ∈ (object entries).named name ↔ (name, w) ∈ entries := by
  simp [named]

theorem mem_named_array_of_isNumeric (h : Ty.isNumeric name = true) :
    w ∈ (array items).named name ↔ w ∈ items := by
  simp [named, h]

theorem mem_named_array (h : Ty.isNumeric name = false) :
    w ∈ (array items).named name ↔ ∃ item ∈ items, w ∈ item.named name := by
  simp [named, h, mem_namedInAll]

end Json

namespace Ty

variable {t u : Ty}

/-! ### Types whose objects are open -/

mutual

/-- The type in which objects may have properties that they do not declare, at every depth. -/
def opened : Ty → Ty
  | array t => array t.opened
  | object ps _ => object (openedProperties ps) true
  | union ms => union (openedAll ms)
  | var name => var name
  | function params r => function params r
  | string => string
  | number => number
  | integer => integer
  | boolean => boolean
  | null => null
  | any => any

def openedAll : List Ty → List Ty
  | [] => []
  | t :: ts => t.opened :: openedAll ts

def openedProperties : List (String × Property Ty) → List (String × Property Ty)
  | [] => []
  | (name, p) :: ps => (name, { p with ty := p.ty.opened }) :: openedProperties ps

end

theorem mem_openedAll {ts : List Ty} : u ∈ openedAll ts ↔ ∃ t ∈ ts, t.opened = u := by
  induction ts with
  | nil => simp [openedAll]
  | cons t ts ih => simp [openedAll, ih, eq_comm]

theorem mem_openedProperties {name : String} {p : Property Ty} {ps : Properties}
    (h : (name, p) ∈ ps) : (name, { p with ty := p.ty.opened }) ∈ openedProperties ps := by
  induction ps with
  | nil => simp at h
  | cons entry ps ih =>
    rcases List.mem_cons.mp h with heq | hmem
    · simp [← heq, openedProperties]
    · exact List.mem_cons_of_mem _ (ih hmem)

/-! ### Names in nullable types -/

theorem select?_mem_selections (name : String) {m : Ty} {ms : List Ty} (hm : m ∈ ms) (hne : m ≠ null) :
    m.select? name ∈ selections name ms := by
  induction ms with
  | nil => simp at hm
  | cons first ms ih =>
    rw [selections]
    rcases List.mem_cons.mp hm with rfl | hmem
    · have hfirst : m.isNull = false := Bool.eq_false_iff.mpr fun h => hne (eq_null_of_isNull h)
      simp [hfirst]
    · split
      · exact ih hmem
      · exact List.mem_cons_of_mem _ (ih hmem)

/-- A name crosses a union only if all its members but null select the same type. -/
theorem select?_union {name : String} {ms : List Ty} (h : (union ms).select? name = some u) :
    ∃ s, u = s.orNull ∧ (∃ m ∈ ms, m.select? name = some s) ∧
      ∀ m ∈ ms, m = null ∨ m.select? name = some s := by
  rw [select?] at h
  split at h
  · split at h
    · rename_i selected hselections
      obtain ⟨s, rfl, rfl⟩ := Option.map_eq_some_iff.mp h
      obtain ⟨m, hm, hs⟩ := mem_selections (hselections ▸ List.mem_singleton_self _)
      refine ⟨s, rfl, ⟨m, hm, hs.symm⟩, ?_⟩
      intro m hm
      by_cases hnull : m = null
      · exact Or.inl hnull
      · right
        simpa [hselections] using select?_mem_selections name hm hnull
    · cases h
  · cases h

/-! ### What it means to conform -/

/-- What following a path takes from a notion of the values of a type. -/
structure Describes (Has : Json → Ty → Prop) : Prop where
  any : ∀ v, Has v any
  null_iff : ∀ v, Has v null ↔ v = .null
  array : ∀ v t, Has v (array t) → ∃ items, v = .array items ∧ ∀ item ∈ items, Has item t
  object : ∀ v ps isOpen, Has v (object ps isOpen) → ∃ entries, v = .object entries ∧
    ∀ name p w, (name, p) ∈ ps → (name, w) ∈ entries → Has w p.ty
  union_iff : ∀ v ms, Has v (union ms) ↔ ∃ m ∈ ms, Has v m

theorem conforms_union_iff {v : Json} {ms : List Ty} :
    Json.Conforms v (union ms) ↔ ∃ m ∈ ms, Json.Conforms v m :=
  conforms_iff_alternatives

theorem describes_conforms : Describes Json.Conforms where
  any _ := .any
  null_iff _ := conforms_null_iff
  array _ _ := conforms_array_iff.mp
  object v ps isOpen h := by
    obtain ⟨entries, rfl, _, hvalues, _⟩ := conforms_object_iff.mp h
    exact ⟨entries, rfl, hvalues⟩
  union_iff _ _ := conforms_union_iff

theorem describes_conforms_opened : Describes fun v t => Json.Conforms v t.opened where
  any _ := .any
  null_iff _ := conforms_null_iff
  array _ _ := conforms_array_iff.mp
  object v ps isOpen h := by
    obtain ⟨entries, rfl, _, hvalues, _⟩ := conforms_object_iff.mp h
    exact ⟨entries, rfl, fun name p w hp hw => hvalues name _ w (mem_openedProperties hp) hw⟩
  union_iff v ms := by
    rw [opened, conforms_union_iff]
    simp [mem_openedAll]

namespace Describes

variable {Has : Json → Ty → Prop} (hHas : Describes Has) {name : String} {v w : Json}
include hHas

theorem iff_alternatives : Has v t ↔ ∃ s ∈ t.alternatives, Has v s := by
  cases t with
  | union ms => exact hHas.union_iff v ms
  | _ => simp [alternatives]

/-- The values of a type together with null are its values and null. -/
theorem orNull (ht : t.WellFormed) (h : Has v t ∨ v = .null) : Has v t.orNull := by
  have hnull : Has .null null := (hHas.null_iff .null).mpr rfl
  rcases orNull_eq ht with ⟨heq, hadmits⟩ | ⟨heq, _⟩
  · rw [heq]
    rcases h with h | rfl
    · exact h
    · rcases hadmits with rfl | hmem
      · exact hHas.any _
      · exact hHas.iff_alternatives.mpr ⟨null, hmem, hnull⟩
  · rw [heq, hHas.union_iff]
    rcases h with h | rfl
    · obtain ⟨s, hs, hv⟩ := hHas.iff_alternatives.mp h
      exact ⟨s, List.mem_append_left _ hs, hv⟩
    · exact ⟨null, by simp, hnull⟩

/-! ### One segment -/

/-- A name selects values of the type that it selects. The induction is on the type, which gets smaller
where the name is looked up in the elements of an array or past null. -/
theorem named (ht : t.WellFormed) (hu : t.select? name = some u) (hv : Has v t)
    (hw : w ∈ v.named name) : Has w u := by
  induction t generalizing u v w with
  | any =>
    rw [select?] at hu
    exact Option.some.inj hu ▸ hHas.any w
  | object ps isOpen ih =>
    rw [select?] at hu
    obtain ⟨p, hp, rfl⟩ := Option.map_eq_some_iff.mp hu
    obtain ⟨entries, rfl, hvalues⟩ := hHas.object _ _ _ hv
    exact hvalues name p w (Entries.mem_of_lookup hp) (Json.mem_named_object.mp hw)
  | array t ih =>
    obtain ⟨items, rfl, hitems⟩ := hHas.array _ _ hv
    rw [select?] at hu
    by_cases hnumeric : isNumeric name = true
    · rw [if_pos hnumeric] at hu
      rw [Json.mem_named_array_of_isNumeric hnumeric] at hw
      exact Option.some.inj hu ▸ hitems w hw
    · rw [if_neg hnumeric] at hu
      obtain ⟨item, hitem, hw⟩ := (Json.mem_named_array (Bool.eq_false_iff.mpr hnumeric)).mp hw
      exact ih (WellFormed.array_iff.mp ht) hu (hitems item hitem) hw
  | union ms ih =>
    obtain ⟨_, _, _, hms⟩ := WellFormed.union_iff.mp ht
    obtain ⟨s, rfl, ⟨selecting, hselecting, hs⟩, hmembers⟩ := select?_union hu
    have hwf : s.WellFormed := wellFormed_invariant.select? (hms _ hselecting) hs
    obtain ⟨m, hm, hvm⟩ := (hHas.union_iff _ _).mp hv
    rcases hmembers m hm with rfl | hselect
    · -- null stays null
      rw [(hHas.null_iff v).mp hvm] at hw
      exact hHas.orNull hwf (Or.inr (by simpa [Json.named] using hw))
    · exact hHas.orNull hwf (Or.inl (ih m hm (hms m hm) hselect hvm hw))
  | string | number | integer | boolean | null | var _ | function _ _ _ _ => cases hu

theorem elementsAt {indexes : Nat} (hu : t.indexed? indexes = some u) (hv : Has v t)
    (hw : w ∈ v.elementsAt indexes) : Has w u := by
  induction indexes generalizing t v with
  | zero =>
    rw [List.mem_singleton.mp hw]
    exact Option.some.inj hu ▸ hv
  | succ n ih =>
    obtain ⟨item, hitem, hreached⟩ := List.mem_flatMap.mp hw
    cases t with
    | array t =>
      obtain ⟨items, rfl, hitems⟩ := hHas.array _ _ hv
      exact ih hu (hitems item hitem) hreached
    | any => exact ih hu (hHas.any item) hreached
    | _ => cases hu

theorem reachedBy {segment : List Char} (ht : t.WellFormed) (hu : t.descend? segment = some u)
    (hv : Has v t) (hw : w ∈ v.reachedBy segment) : Has w u := by
  rw [descend?_eq_bind] at hu
  obtain ⟨s, hs, hu⟩ := Option.bind_eq_some_iff.mp hu
  obtain ⟨selected, hselected, hu⟩ := Option.bind_eq_some_iff.mp hu
  simp only [Json.reachedBy, hs] at hw
  obtain ⟨x, hx, hw⟩ := List.mem_flatMap.mp hw
  refine hHas.elementsAt hu ?_ hw
  by_cases hempty : s.name.isEmpty = true
  · rw [if_pos hempty] at hselected hx
    rw [List.mem_singleton.mp hx]
    exact Option.some.inj hselected ▸ hv
  · rw [if_neg hempty] at hselected hx
    exact hHas.named ht hselected hv hx

/-! ### Paths -/

theorem reached {segments : List (List Char)} (ht : t.WellFormed) (hu : t.follow? segments = some u)
    (hv : Has v t) (hw : w ∈ v.reached segments) : Has w u := by
  induction segments generalizing t v with
  | nil =>
    rw [List.mem_singleton.mp hw]
    exact Option.some.inj hu ▸ hv
  | cons segment segments ih =>
    obtain ⟨s, hs, hu⟩ := Option.bind_eq_some_iff.mp hu
    obtain ⟨x, hx, hw⟩ := List.mem_flatMap.mp hw
    exact ih (wellFormed_invariant.descend? ht hs) hu (hHas.reachedBy ht hs hv hx) hw

end Describes

/-- **Paths lead to the types of the values that they reach.** Whatever is reached from a value of a type
conforms to the type that the path leads to, and the same is true if properties that are not declared do
not count. -/
theorem conforms_of_reached {segments : List (List Char)} {v w : Json} (ht : t.WellFormed)
    (hu : t.follow? segments = some u) (hw : w ∈ v.reached segments) :
    (Json.Conforms v t → Json.Conforms w u) ∧
      (Json.Conforms v t.opened → Json.Conforms w u.opened) :=
  ⟨fun hv => describes_conforms.reached ht hu hv hw,
    fun hv => describes_conforms_opened.reached ht hu hv hw⟩

/-- Two orders, of which the second is null: the path goes through both, and on through all lines of the
first. -/
theorem conforms_of_reached_in_lines :
    let line : Ty := .object [("qty", .mandatory integer), ("note", .optional string)] false
    let order : Ty := .object [("lines", .mandatory (array (array line)))] true
    let t : Ty := .object [("orders", .mandatory (array (union [order, null])))] false
    let lines : Json := .array [.array [.object [("qty", .int 2)]], .array []]
    let v : Json := .object [("orders", .array [.object [("id", .int 7), ("lines", lines)], .null])]
    let segments : List (List Char) :=
      ["orders[1]".toList, "lines".toList, "0".toList, "qty".toList]
    t.WellFormed ∧ t.follow? segments = some (union [integer, null]) ∧ Json.Conforms v t ∧
      v.reached segments = [.int 2, .null] ∧
      Json.Conforms (.int 2) (union [integer, null]) ∧ Json.Conforms .null (union [integer, null]) := by
  intro line order t lines v segments
  have ht : t.WellFormed := by decide
  have hu : t.follow? segments = some (union [integer, null]) := rfl
  have hv : Json.Conforms v t := by decide
  have hreached : v.reached segments = [.int 2, .null] := rfl
  refine ⟨ht, hu, hv, hreached, ?_, ?_⟩
  · exact (conforms_of_reached ht hu (by simp [hreached])).1 hv
  · exact (conforms_of_reached ht hu (by simp [hreached])).1 hv

end Ty

end SchemaInfer
