import SchemaInfer.Ty.Text
import SchemaInfer.Proofs.WellFormed

/-!
# What the text of a type shows

The text of a type leaves out how often a property occurs and what it is for; of its data only whether it
is optional shows. The skeleton of a type is the type without the rest. Here the text is taken apart into
its characters, for each kind of type, and types with the same skeleton are seen to have the same text.
-/

namespace SchemaInfer.Ty

variable {t r : Ty} {ps : Properties} {isOpen : Bool} {ms params : List Ty}

/-! ### Skeletons -/

/-- A property of a type, of whose data only whether it is optional is left. -/
def bareProperty (isOptional : Bool) (ty : Ty) : Property Ty :=
  { ty, required := !isOptional, minOccurs := 1, maxOccurs := 1, description := none }

mutual

/-- The type without occurrence counts and descriptions: the same constructors, names, members and
parameters in the same order, and the same objects are open and the same properties optional. -/
def skeleton : Ty → Ty
  | array t => array t.skeleton
  | object ps isOpen => object (skeletonProperties ps) isOpen
  | union ms => union (skeletonAll ms)
  | function ps r => function (skeletonAll ps) r.skeleton
  | var name => var name
  | string => string
  | number => number
  | integer => integer
  | boolean => boolean
  | null => null
  | any => any

def skeletonAll : List Ty → List Ty
  | [] => []
  | t :: ts => t.skeleton :: skeletonAll ts

def skeletonProperties : List (String × Property Ty) → List (String × Property Ty)
  | [] => []
  | (name, p) :: ps => (name, bareProperty p.isOptional p.ty.skeleton) :: skeletonProperties ps

end

theorem skeletonAll_eq_map (ts : List Ty) : skeletonAll ts = ts.map skeleton := by
  induction ts with
  | nil => rfl
  | cons t ts ih => rw [skeletonAll, ih, List.map_cons]

/-- A property by name, with its type as a skeleton. -/
def skeletonEntry (entry : String × Property Ty) : String × Property Ty :=
  (entry.1, bareProperty entry.2.isOptional entry.2.ty.skeleton)

theorem skeletonProperties_eq_map (ps : Properties) :
    skeletonProperties ps = ps.map skeletonEntry := by
  induction ps with
  | nil => rfl
  | cons entry ps ih => rw [skeletonProperties, ih, List.map_cons, skeletonEntry]

@[simp] theorem ty_bareProperty {isOptional : Bool} : (bareProperty isOptional t).ty = t :=
  rfl

@[simp] theorem isOptional_bareProperty {isOptional : Bool} :
    (bareProperty isOptional t).isOptional = isOptional := by
  simp [bareProperty, Property.isOptional]

theorem isFunction_skeleton : t.skeleton.isFunction = t.isFunction := by
  cases t <;> rfl

theorem alternatives_skeleton : t.skeleton.alternatives = t.alternatives.map skeleton := by
  cases t with
  | union ms => exact skeletonAll_eq_map ms
  | _ => rfl

/-! ### Texts, character by character -/

def chars (t : Ty) : List Char :=
  t.text.toList

/-- A member of a union, which stands in parentheses if it is a function. -/
def memberChars (m : Ty) : List Char :=
  if m.isFunction then '(' :: (m.chars ++ [')']) else m.chars

theorem memberChars_function :
    (function params r).memberChars = '(' :: ((function params r).chars ++ [')']) :=
  rfl

/-- What is listed of an object: its properties, and something more if it is open. -/
def listing {α : Type} (entries : List α) (isOpen : Bool) : List (Option α) :=
  entries.map some ++ if isOpen then [none] else []

/-- What follows the name of a property. -/
def nameEnd (isOptional : Bool) : List Char :=
  if isOptional then ['?', ':', ' '] else [':', ' ']

def listedChars : Option (String × Property Ty) → List Char
  | some (name, p) => name.toList ++ (nameEnd p.isOptional ++ p.ty.chars)
  | none => ['.', '.', '.']

theorem chars_array : (array t).chars = "Array<".toList ++ (t.chars ++ ['>']) := by
  simp [chars, text]

theorem map_toList_paramTexts : (paramTexts params).map String.toList = params.map chars := by
  induction params with
  | nil => rfl
  | cons p params ih => rw [paramTexts, List.map_cons, List.map_cons, ih, chars]

theorem map_toList_memberTexts : (memberTexts ms).map String.toList = ms.map memberChars := by
  induction ms with
  | nil => rfl
  | cons m ms ih =>
    rw [memberTexts, List.map_cons, List.map_cons, ih, memberChars]
    congr 1
    split
    · simp [chars]
    · rfl

theorem map_toList_propertyTexts : (propertyTexts ps).map String.toList =
    (ps.map some).map listedChars := by
  induction ps with
  | nil => rfl
  | cons entry ps ih =>
    obtain ⟨name, p⟩ := entry
    rw [propertyTexts, List.map_cons, List.map_cons, List.map_cons, ih, listedChars]
    congr 1
    cases p.isOptional <;> simp [chars, nameEnd]

theorem chars_object : (object ps isOpen).chars =
    '{' :: ([',', ' '].intercalate ((listing ps isOpen).map listedChars) ++ ['}']) := by
  have htexts : (if isOpen then propertyTexts ps ++ ["..."] else propertyTexts ps).map String.toList =
      (listing ps isOpen).map listedChars := by
    rw [listing, List.map_append, ← map_toList_propertyTexts]
    cases isOpen <;> simp [listedChars]
  simp only [chars, text, String.toList_append, String.toList_intercalate, htexts]
  rfl

theorem chars_union : (union ms).chars = [' ', '|', ' '].intercalate (ms.map memberChars) := by
  rw [chars, text, String.toList_intercalate, map_toList_memberTexts]
  rfl

theorem chars_function : (function params r).chars =
    '(' :: ([',', ' '].intercalate (params.map chars) ++ (')' :: ' ' :: '-' :: '>' :: ' ' :: r.chars)) := by
  simp [chars, text, map_toList_paramTexts]

/-- A type that is no function is a separated list of its alternatives. -/
theorem chars_eq_intercalate (h : t.isFunction = false) :
    t.chars = [' ', '|', ' '].intercalate (t.alternatives.map memberChars) := by
  cases t with
  | union ms => exact chars_union
  | function params r => cases h
  | _ => simp [alternatives, memberChars, isFunction]

/-! The text shows no more than the skeleton. -/

theorem some_mem_listing {α : Type} {xs : List α} {x : α} :
    some x ∈ listing xs isOpen ↔ x ∈ xs := by
  cases isOpen <;> simp [listing]

theorem map_listing {α β : Type} {f : α → β} {xs : List α} :
    (listing xs isOpen).map (Option.map f) = listing (xs.map f) isOpen := by
  cases isOpen <;> simp [listing]

theorem chars_skeleton (t : Ty) : t.skeleton.chars = t.chars := by
  induction t with
  | string | number | integer | boolean | null | any | var _ => rfl
  | array t ih => rw [skeleton, chars_array, chars_array, ih]
  | object ps isOpen ih =>
    rw [skeleton, chars_object, chars_object, skeletonProperties_eq_map, ← map_listing, List.map_map]
    congr 3
    refine List.map_congr_left fun item hitem => ?_
    cases item with
    | none => rfl
    | some entry =>
      simp [listedChars, skeletonEntry, ih _ _ (some_mem_listing.mp hitem)]
  | union ms ih =>
    rw [skeleton, chars_union, chars_union, skeletonAll_eq_map, List.map_map]
    congr 1
    refine List.map_congr_left fun m hm => ?_
    rw [Function.comp_apply, memberChars, memberChars, isFunction_skeleton, ih m hm]
  | function params r ihparams ihr =>
    rw [skeleton, chars_function, chars_function, skeletonAll_eq_map, List.map_map, ihr]
    congr 3
    exact List.map_congr_left ihparams

end SchemaInfer.Ty
