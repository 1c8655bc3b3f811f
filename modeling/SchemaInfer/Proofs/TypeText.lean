import SchemaInfer.Conformance.Case
import SchemaInfer.Proofs.ClosedInference
import SchemaInfer.Proofs.TypeSkeletons

/-!
# The text of a type determines the type

Types with the same text have the same skeleton. The text is read from the left. Types without parts,
arrays, objects and functions in parentheses say themselves where they end, so the members of a union can be
told apart by the bars between them. A union or a function ends where nothing can continue it, at a comma or
a closing bracket. A text that starts with a parenthesis is the one that takes more than a look at what is
next: it is a function, or a union whose first member is one, and this shows behind the matching
parenthesis. Names may hold anything but the marks by which the text of an object is read.
-/

namespace SchemaInfer

/-! ### Separated texts -/

namespace Text

variable {α γ : Type} {write : α → List Char} {key : α → γ} {S : List Char → Prop} {mark : Char}
  {sep : List Char} {xs ys : List α} {rest rest' : List Char}

theorem intercalate_cons_eq_append (sep x : List Char) (xs : List (List Char)) :
    sep.intercalate (x :: xs) = x ++ xs.flatMap (sep ++ ·) := by
  induction xs generalizing x with
  | nil => simp
  | cons y ys ih =>
    rw [List.intercalate_cons_cons, ih, List.flatMap_cons, List.append_assoc, List.append_assoc]

section Separated

variable
  (hread : ∀ x ∈ xs, ∀ y ∈ ys, ∀ rest rest', S rest → S rest' →
    write x ++ rest = write y ++ rest' → key x = key y ∧ rest = rest')
  (hmark : ∀ rest, S (mark :: rest)) (hrest : S rest) (hrest' : S rest')
  (hend : ∀ cs, rest ≠ mark :: cs) (hend' : ∀ cs, rest' ≠ mark :: cs)
include hread hmark hrest hrest' hend hend'

theorem flatMap_separated_injective
    (h : xs.flatMap (fun x => mark :: (sep ++ write x)) ++ rest =
      ys.flatMap (fun y => mark :: (sep ++ write y)) ++ rest') :
    xs.map key = ys.map key ∧ rest = rest' := by
  induction xs generalizing ys with
  | nil =>
    cases ys with
    | nil => exact ⟨rfl, h⟩
    | cons y ys => exact absurd h (hend _)
  | cons x xs ih =>
    cases ys with
    | nil => exact absurd h.symm (hend' _)
    | cons y ys =>
      have hstop : ∀ (zs : List α) {rest : List Char}, S rest →
          S (zs.flatMap (fun z => mark :: (sep ++ write z)) ++ rest) := by
        intro zs rest hrest
        cases zs with
        | nil => exact hrest
        | cons z zs => exact hmark _
      simp only [List.flatMap_cons, List.cons_append, List.append_assoc, List.cons.injEq, true_and,
        List.append_cancel_left_eq] at h
      obtain ⟨hkey, htail⟩ := hread x List.mem_cons_self y List.mem_cons_self _ _ (hstop xs hrest)
        (hstop ys hrest') h
      obtain ⟨hkeys, hrests⟩ := ih (fun x hx y hy =>
        hread x (List.mem_cons_of_mem _ hx) y (List.mem_cons_of_mem _ hy)) htail
      exact ⟨by rw [List.map_cons, List.map_cons, hkey, hkeys], hrests⟩

/-- A separated list can be read if its items can, what follows an item tells whether there is another, and
what follows the list is not an item. -/
theorem intercalate_injective (hfirst : ∀ x ∈ xs, ∀ cs, write x ++ cs ≠ rest')
    (hfirst' : ∀ y ∈ ys, ∀ cs, write y ++ cs ≠ rest)
    (h : (mark :: sep).intercalate (xs.map write) ++ rest =
      (mark :: sep).intercalate (ys.map write) ++ rest') :
    xs.map key = ys.map key ∧ rest = rest' := by
  cases xs with
  | nil =>
    cases ys with
    | nil => exact ⟨rfl, h⟩
    | cons y ys =>
      rw [List.map_cons, intercalate_cons_eq_append, List.append_assoc] at h
      exact absurd h.symm (hfirst' y List.mem_cons_self _)
  | cons x xs =>
    cases ys with
    | nil =>
      rw [List.map_cons, intercalate_cons_eq_append, List.append_assoc] at h
      exact absurd h (hfirst x List.mem_cons_self _)
    | cons y ys =>
      simp only [List.map_cons, intercalate_cons_eq_append, List.flatMap_map] at h
      -- a separator may be put in front of the first items, too
      have htails : (x :: xs).flatMap (fun x => mark :: (sep ++ write x)) ++ rest =
          (y :: ys).flatMap (fun y => mark :: (sep ++ write y)) ++ rest' := by
        simp only [List.flatMap_cons, List.cons_append, List.append_assoc] at h ⊢
        rw [h]
      exact flatMap_separated_injective hread hmark hrest hrest' hend hend' htails

end Separated

/-- A text is cut at the first of some marks. -/
theorem append_injective_of_notMem {marks xs ys : List Char} (hxs : ∀ c ∈ xs, c ∉ marks)
    (hys : ∀ c ∈ ys, c ∉ marks) (hrest : ∃ c cs, rest = c :: cs ∧ c ∈ marks)
    (hrest' : ∃ c cs, rest' = c :: cs ∧ c ∈ marks) (h : xs ++ rest = ys ++ rest') :
    xs = ys ∧ rest = rest' := by
  induction xs generalizing ys with
  | nil =>
    cases ys with
    | nil => exact ⟨rfl, h⟩
    | cons y ys =>
      obtain ⟨c, cs, rfl, hc⟩ := hrest
      obtain ⟨rfl, _⟩ := List.cons.inj h
      exact absurd hc (hys c List.mem_cons_self)
  | cons x xs ih =>
    cases ys with
    | nil =>
      obtain ⟨c, cs, rfl, hc⟩ := hrest'
      obtain ⟨rfl, _⟩ := List.cons.inj h
      exact absurd hc (hxs x List.mem_cons_self)
    | cons y ys =>
      obtain ⟨rfl, htail⟩ := List.cons.inj h
      obtain ⟨rfl, hrests⟩ := ih (fun c hc => hxs c (List.mem_cons_of_mem _ hc))
        (fun c hc => hys c (List.mem_cons_of_mem _ hc)) htail
      exact ⟨rfl, hrests⟩

end Text

namespace Ty

variable {t u m r : Ty} {ps qs : Properties} {isOpen : Bool} {ms params : List Ty}
  {rest rest' : List Char}

/-! ### Legible types -/

/-- The marks by which the text of an object is read. -/
def marks : List Char :=
  [':', '?', '.', '}']

/-- What can be read back of one node: no variable, which could be named like another type, no union that
looks like its only member or holds a union, and no name with a mark in it. -/
def LegibleNode : Ty → Prop
  | object ps _ => ∀ name ∈ Entries.keys ps, ∀ c ∈ name.toList, c ∉ marks
  | union ms => 2 ≤ ms.length ∧ ∀ m ∈ ms, m.isUnion = false
  | var _ => False
  | _ => True

/-- A type that can be read back from its text, but for occurrence counts and descriptions. -/
def Legible (t : Ty) : Prop :=
  t.Everywhere LegibleNode

namespace Legible

theorem not_var {name : String} : ¬ (var name).Legible :=
  fun h => h.head

theorem array_iff : (array t).Legible ↔ t.Legible := by
  simp [Legible, LegibleNode]

theorem object_iff : (object ps isOpen).Legible ↔
    (∀ name ∈ Entries.keys ps, ∀ c ∈ name.toList, c ∉ marks) ∧
      ∀ name p, (name, p) ∈ ps → p.ty.Legible := by
  simp [Legible, LegibleNode]

theorem union_iff : (union ms).Legible ↔
    2 ≤ ms.length ∧ (∀ m ∈ ms, m.isUnion = false) ∧ ∀ m ∈ ms, m.Legible := by
  simp [Legible, LegibleNode, and_assoc]

theorem function_iff : (function params r).Legible ↔
    (∀ p ∈ params, p.Legible) ∧ r.Legible := by
  simp [Legible, LegibleNode]

end Legible

theorem Legible.of_mem_alternatives (ht : t.Legible) (hm : m ∈ t.alternatives) :
    m.Legible ∧ m.isUnion = false := by
  cases t with
  | union ms =>
    obtain ⟨_, hflat, hms⟩ := Legible.union_iff.mp ht
    exact ⟨hms m hm, hflat m hm⟩
  | _ =>
    obtain rfl := List.mem_singleton.mp hm
    exact ⟨ht, rfl⟩

theorem skeleton_ne_union_singleton (ht : t.Legible) (s : Ty) : t.skeleton ≠ union [s] := by
  cases t with
  | union ms =>
    obtain ⟨hlength, _⟩ := Legible.union_iff.mp ht
    rw [skeleton, skeletonAll_eq_map]
    intro h
    have hone := congrArg List.length (union.inj h)
    rw [List.length_map, List.length_singleton] at hone
    omega
  | _ => exact Ty.noConfusion

/-! ### How texts begin and end -/

/-- The characters with which a type can begin. -/
def openings : List Char :=
  ['(', 'S', 'N', 'I', 'B', 'A', '{']

/-- The characters that cannot continue a type. -/
def closings : List Char :=
  ['>', ',', '}', ')']

theorem notMem_closings {c : Char} (hc : c ∈ openings) : c ∉ closings := by
  simp only [openings, List.mem_cons, List.not_mem_nil, or_false] at hc
  rcases hc with rfl | rfl | rfl | rfl | rfl | rfl | rfl <;> decide

/-- What follows a type in a text: nothing, or something that cannot continue it. -/
def Ends (rest : List Char) : Prop :=
  ∀ c ∈ rest.head?, c ∈ closings

theorem ends_nil : Ends [] := by
  simp [Ends]

theorem ends_cons_iff {c : Char} : Ends (c :: rest) ↔ c ∈ closings := by
  simp [Ends]

theorem Ends.ne_blank (h : Ends rest) (cs : List Char) : rest ≠ ' ' :: cs := by
  rintro rfl
  simp [ends_cons_iff, closings] at h

theorem chars_eq_cons_of_member (ht : t.Legible) (hunion : t.isUnion = false)
    (hfunction : t.isFunction = false) : ∃ c cs, t.chars = c :: cs ∧ c ∈ openings ∧ c ≠ '(' := by
  cases t with
  | object ps isOpen => exact ⟨_, _, chars_object, by decide, by decide⟩
  | union ms => cases hunion
  | function params r => cases hfunction
  | var name => exact absurd ht Legible.not_var
  | array t => exact ⟨_, _, chars_array, by decide, by decide⟩
  | _ => exact ⟨_, _, rfl, by decide, by decide⟩

theorem memberChars_eq_cons (ht : t.Legible) (hunion : t.isUnion = false) :
    ∃ c cs, t.memberChars = c :: cs ∧ c ∈ openings ∧ (c = '(' ↔ t.isFunction = true) := by
  cases hfunction : t.isFunction with
  | true =>
    refine ⟨'(', t.chars ++ [')'], ?_, by decide, by simp⟩
    rw [memberChars, if_pos hfunction]
  | false =>
    obtain ⟨c, cs, hcs, hc, hne⟩ := chars_eq_cons_of_member ht hunion hfunction
    refine ⟨c, cs, ?_, hc, by simp [hne]⟩
    rw [memberChars, hfunction]
    exact hcs

/-- A type that is no function begins with its first alternative. -/
theorem exists_chars_eq_append (ht : t.Legible) (hfunction : t.isFunction = false) :
    ∃ m ms, t.alternatives = m :: ms ∧
      t.chars = m.memberChars ++ ms.flatMap fun n => ' ' :: '|' :: ' ' :: n.memberChars := by
  have hne : t.alternatives ≠ [] := by
    cases t with
    | union ms =>
      obtain ⟨hlength, _⟩ := Legible.union_iff.mp ht
      exact List.ne_nil_of_length_pos (Nat.lt_of_lt_of_le Nat.zero_lt_two hlength)
    | _ => exact List.cons_ne_nil _ _
  obtain ⟨m, ms, heq⟩ := List.exists_cons_of_ne_nil hne
  refine ⟨m, ms, heq, ?_⟩
  rw [chars_eq_intercalate hfunction, heq, List.map_cons, Text.intercalate_cons_eq_append,
    List.flatMap_map]
  rfl

theorem chars_eq_cons (ht : t.Legible) : ∃ c cs, t.chars = c :: cs ∧ c ∈ openings := by
  cases hfunction : t.isFunction with
  | true =>
    cases t with
    | function params r => exact ⟨_, _, chars_function, by decide⟩
    | _ => cases hfunction
  | false =>
    obtain ⟨m, ms, hms, hchars⟩ := exists_chars_eq_append ht hfunction
    obtain ⟨hm, hflat⟩ := ht.of_mem_alternatives (hms ▸ List.mem_cons_self)
    obtain ⟨c, cs, hcs, hc, _⟩ := memberChars_eq_cons hm hflat
    rw [hcs, List.cons_append] at hchars
    exact ⟨c, _, hchars, hc⟩

/-- No type begins where another one ends. -/
theorem chars_append_ne {c : Char} {cs : List Char} (ht : t.Legible) (hc : c ∉ openings) :
    t.chars ++ rest ≠ c :: cs := by
  obtain ⟨c', cs', hchars, hc'⟩ := chars_eq_cons ht
  rw [hchars]
  intro h
  obtain ⟨rfl, _⟩ := List.cons.inj h
  exact hc hc'

theorem memberChars_append_ne_of_ends (ht : t.Legible) (hunion : t.isUnion = false)
    (hrest : Ends rest') : t.memberChars ++ rest ≠ rest' := by
  obtain ⟨c, cs, hchars, hc, _⟩ := memberChars_eq_cons ht hunion
  rw [hchars]
  rintro rfl
  exact notMem_closings hc (ends_cons_iff.mp hrest)

/-! ### Reading -/

/-- A type is read whole where it ends. -/
def ReadsWhole (t : Ty) : Prop :=
  ∀ (u : Ty) rest rest', u.Legible → Ends rest → Ends rest' → t.chars ++ rest = u.chars ++ rest' →
    t.skeleton = u.skeleton ∧ rest = rest'

/-- A member of a union is read whatever follows it. -/
def ReadsMember (t : Ty) : Prop :=
  ∀ (u : Ty) rest rest', u.Legible → u.isUnion = false →
    t.memberChars ++ rest = u.memberChars ++ rest' → t.skeleton = u.skeleton ∧ rest = rest'

theorem readsMember_function (h : ReadsWhole (function params r)) :
    ReadsMember (function params r) := by
  intro u rest rest' hu hunion heq
  cases hfunction : u.isFunction with
  | true =>
    rw [memberChars_function, memberChars, if_pos hfunction] at heq
    simp only [List.cons_append, List.append_assoc, List.nil_append, List.cons.injEq, true_and] at heq
    obtain ⟨hskeleton, hrest⟩ := h u _ _ hu (ends_cons_iff.mpr (by decide))
      (ends_cons_iff.mpr (by decide)) heq
    exact ⟨hskeleton, (List.cons.inj hrest).2⟩
  | false =>
    obtain ⟨c, cs, hchars, _, hc⟩ := memberChars_eq_cons hu hunion
    rw [memberChars_function, hchars] at heq
    have hopening := hc.mp (List.cons.inj heq).1.symm
    rw [hfunction] at hopening
    cases hopening

theorem readsMember_primitive (ht : t.isPrimitive = true) : ReadsMember t := by
  intro u rest rest' hu hunion heq
  cases t with
  | string | number | integer | boolean | null | any =>
    cases u with
    | string | number | integer | boolean | null | any =>
      revert heq
      simp [memberChars, isFunction, chars, text]
    | array t => simp [memberChars, isFunction, chars, text] at heq
    | object ps isOpen => simp [memberChars, isFunction, chars, text] at heq
    | function params r => simp [memberChars, isFunction, chars, text] at heq
    | union ns => cases hunion
    | var name => exact absurd hu Legible.not_var
  | _ => cases ht

theorem readsMember_array (h : ReadsWhole t) : ReadsMember (array t) := by
  intro u rest rest' hu _ heq
  cases u with
  | array u =>
    simp only [memberChars, isFunction, Bool.false_eq_true, if_false, chars_array, List.append_assoc,
      List.append_cancel_left_eq, List.cons_append, List.nil_append] at heq
    obtain ⟨hskeleton, hrest⟩ := h u _ _ (Legible.array_iff.mp hu) (ends_cons_iff.mpr (by decide))
      (ends_cons_iff.mpr (by decide)) heq
    exact ⟨congrArg array hskeleton, (List.cons.inj hrest).2⟩
  | union ns => cases ‹(union ns).isUnion = false›
  | var name => exact absurd hu Legible.not_var
  | _ => simp [memberChars, isFunction, chars, text] at heq

/-! Objects -/

theorem nameEnd_append_eq_cons (isOptional : Bool) (rest : List Char) :
    ∃ c cs, nameEnd isOptional ++ rest = c :: cs ∧ c ∈ marks ∧ c ∉ ['.', '}'] := by
  cases isOptional with
  | true => exact ⟨'?', _, rfl, by decide, by decide⟩
  | false => exact ⟨':', _, rfl, by decide, by decide⟩

theorem nameEnd_append_injective {isOptional isOptional' : Bool}
    (h : nameEnd isOptional ++ rest = nameEnd isOptional' ++ rest') :
    isOptional = isOptional' ∧ rest = rest' := by
  revert h
  cases isOptional <;> cases isOptional' <;> simp [nameEnd]

section Names

variable {name name' : String} {p q : Property Ty} (hname : ∀ c ∈ name.toList, c ∉ marks)
include hname

/-- A property is not taken for the dots of an open object or for its end. -/
theorem listedChars_append_ne {c : Char} (hc : c ∈ ['.', '}']) (cs : List Char) :
    listedChars (some (name, p)) ++ rest ≠ c :: cs := by
  intro h
  rw [listedChars] at h
  cases hchars : name.toList with
  | nil =>
    obtain ⟨c', cs', hend, _, hc'⟩ := nameEnd_append_eq_cons p.isOptional (p.ty.chars ++ rest)
    rw [hchars, List.nil_append, List.append_assoc, hend] at h
    exact hc' ((List.cons.inj h).1 ▸ hc)
  | cons c' cs' =>
    have hmark : ∀ c ∈ ['.', '}'], c ∈ marks := by simp [marks]
    rw [hchars] at h hname
    exact hname c' List.mem_cons_self ((List.cons.inj h).1 ▸ hmark c hc)

theorem listedChars_append_injective (hname' : ∀ c ∈ name'.toList, c ∉ marks)
    (hread : ReadsWhole p.ty) (hq : q.ty.Legible) (hrest : Ends rest) (hrest' : Ends rest')
    (h : listedChars (some (name, p)) ++ rest = listedChars (some (name', q)) ++ rest') :
    skeletonEntry (name, p) = skeletonEntry (name', q) ∧ rest = rest' := by
  have hend : ∀ isOptional rest, ∃ c cs, nameEnd isOptional ++ rest = c :: cs ∧ c ∈ marks := by
    intro isOptional rest
    obtain ⟨c, cs, heq, hc, _⟩ := nameEnd_append_eq_cons isOptional rest
    exact ⟨c, cs, heq, hc⟩
  simp only [listedChars, List.append_assoc] at h
  obtain ⟨hnames, htail⟩ := Text.append_injective_of_notMem hname hname' (hend _ _) (hend _ _) h
  obtain ⟨hoptional, htypes⟩ := nameEnd_append_injective htail
  obtain ⟨hskeleton, hrests⟩ := hread q.ty rest rest' hq hrest hrest' htypes
  refine ⟨?_, hrests⟩
  rw [skeletonEntry, skeletonEntry, String.toList_inj.mp hnames, hoptional, hskeleton]

end Names

theorem listing_injective {α : Type} {xs ys : List α} {isOpen isOpen' : Bool}
    (h : listing xs isOpen = listing ys isOpen') : xs = ys ∧ isOpen = isOpen' := by
  have hentries : ∀ (xs : List α) isOpen, (listing xs isOpen).filterMap id = xs := by
    intro xs isOpen
    cases isOpen <;> simp [listing]
  have hxs : xs = ys := by rw [← hentries xs isOpen, h, hentries]
  subst hxs
  refine ⟨rfl, ?_⟩
  have hdots := List.append_cancel_left h
  cases isOpen <;> cases isOpen' <;> simp at hdots <;> rfl

section Listing

variable {isOpen' : Bool} {item item' : Option (String × Property Ty)}
  (ht : (object ps isOpen).Legible) (hitem : item ∈ listing ps isOpen)
include ht hitem

theorem listedChars_append_ne_end (cs : List Char) : listedChars item ++ rest ≠ '}' :: cs := by
  cases item with
  | none => simp [listedChars]
  | some entry =>
    obtain ⟨hnames, _⟩ := Legible.object_iff.mp ht
    have hname := Entries.mem_keys_of_mem (some_mem_listing.mp hitem)
    exact listedChars_append_ne (hnames _ hname) (by decide) cs

theorem reads_listing (hread : ∀ name p, (name, p) ∈ ps → ReadsWhole p.ty)
    (hu : (object qs isOpen').Legible) (hitem' : item' ∈ listing qs isOpen') (hrest : Ends rest)
    (hrest' : Ends rest') (h : listedChars item ++ rest = listedChars item' ++ rest') :
    item.map skeletonEntry = item'.map skeletonEntry ∧ rest = rest' := by
  obtain ⟨hnames, _⟩ := Legible.object_iff.mp ht
  obtain ⟨hnames', hqs⟩ := Legible.object_iff.mp hu
  cases item with
  | none =>
    cases item' with
    | none => exact ⟨rfl, List.append_cancel_left h⟩
    | some entry' =>
      have hname' := Entries.mem_keys_of_mem (some_mem_listing.mp hitem')
      exact absurd h.symm (listedChars_append_ne (hnames' _ hname') (by decide) _)
  | some entry =>
    have hentry := some_mem_listing.mp hitem
    have hname := hnames _ (Entries.mem_keys_of_mem hentry)
    cases item' with
    | none => exact absurd h (listedChars_append_ne hname (by decide) _)
    | some entry' =>
      have hentry' := some_mem_listing.mp hitem'
      obtain ⟨hskeleton, hrests⟩ := listedChars_append_injective hname
        (hnames' _ (Entries.mem_keys_of_mem hentry')) (hread _ _ hentry) (hqs _ _ hentry') hrest hrest' h
      exact ⟨congrArg some hskeleton, hrests⟩

end Listing

theorem readsMember_object (ht : (object ps isOpen).Legible)
    (hread : ∀ name p, (name, p) ∈ ps → ReadsWhole p.ty) : ReadsMember (object ps isOpen) := by
  intro u rest rest' hu _ heq
  cases u with
  | object qs isOpen' =>
    simp only [memberChars, isFunction, Bool.false_eq_true, if_false, chars_object, List.cons_append,
      List.append_assoc, List.nil_append, List.cons.injEq, true_and] at heq
    have hclosing : ∀ {rest}, Ends ('}' :: rest) := ends_cons_iff.mpr (by decide)
    obtain ⟨hlisting, hrests⟩ := Text.intercalate_injective
      (fun _ hitem _ hitem' _ _ => reads_listing ht hitem hread hu hitem')
      (fun _ => ends_cons_iff.mpr (by decide)) hclosing hclosing (by simp) (by simp)
      (fun _ hitem _ => listedChars_append_ne_end ht hitem _)
      (fun _ hitem' _ => listedChars_append_ne_end hu hitem' _) heq
    rw [map_listing, map_listing] at hlisting
    obtain ⟨hentries, rfl⟩ := listing_injective hlisting
    refine ⟨?_, (List.cons.inj hrests).2⟩
    rw [skeleton, skeleton, skeletonProperties_eq_map, skeletonProperties_eq_map, hentries]
  | union ns => cases ‹(union ns).isUnion = false›
  | var name => exact absurd hu Legible.not_var
  | _ => simp [memberChars, isFunction, chars, text] at heq

/-! Functions and unions -/

/-- The parameters of a function are not taken for a function in parentheses that is the first member of a
union: what follows the parenthesis tells them apart. -/
theorem params_append_ne (hm : m.Legible)
    (hread : ∀ p ∈ params, ∀ rest rest', Ends rest → Ends rest' → p.chars ++ rest = m.chars ++ rest' →
      rest = rest') :
    [',', ' '].intercalate (params.map chars) ++ (')' :: ' ' :: '-' :: rest) ≠
      m.chars ++ (')' :: ' ' :: '|' :: rest') := by
  intro h
  cases params with
  | nil => exact chars_append_ne hm (by decide) h.symm
  | cons p params =>
    rw [List.map_cons, Text.intercalate_cons_eq_append, List.append_assoc] at h
    have hends : Ends ((params.map chars).flatMap ([',', ' '] ++ ·) ++ (')' :: ' ' :: '-' :: rest)) := by
      cases params with
      | nil => exact ends_cons_iff.mpr (by decide)
      | cons q params => exact ends_cons_iff.mpr (by decide)
    have hrests := hread p List.mem_cons_self _ _ hends (ends_cons_iff.mpr (by decide)) h
    cases params with
    | nil => simp at hrests
    | cons q params => simp at hrests

/-- A type that is no function begins with a parenthesis if it is a union that begins with a function. -/
theorem exists_member_of_opening {cs : List Char} (ht : t.Legible) (hfunction : t.isFunction = false)
    (h : t.chars ++ rest = '(' :: cs) :
    ∃ m ∈ t.alternatives, m.isFunction = true ∧ ∃ tail, cs = m.chars ++ (')' :: ' ' :: '|' :: tail) := by
  obtain ⟨m, ms, hms, hchars⟩ := exists_chars_eq_append ht hfunction
  have hmem : m ∈ t.alternatives := hms ▸ List.mem_cons_self
  obtain ⟨hm, hflat⟩ := ht.of_mem_alternatives hmem
  have hopening : m.isFunction = true := by
    obtain ⟨c, cs', hcs, _, hc⟩ := memberChars_eq_cons hm hflat
    rw [hchars, hcs] at h
    exact hc.mp (List.cons.inj h).1
  refine ⟨m, hmem, hopening, ?_⟩
  rw [hchars, memberChars, if_pos hopening] at h
  cases ms with
  | nil =>
    -- a single alternative is the type itself
    cases t with
    | union ns =>
      obtain ⟨hlength, _⟩ := Legible.union_iff.mp ht
      rw [alternatives] at hms
      simp [hms] at hlength
    | _ =>
      obtain rfl := List.singleton_inj.mp hms
      rw [hfunction] at hopening
      cases hopening
  | cons n ns =>
    simp only [List.flatMap_cons, List.cons_append, List.append_assoc, List.nil_append, List.cons.injEq,
      true_and] at h
    exact ⟨_, h.symm⟩

theorem readsWhole_function (ht : (function params r).Legible) (hparams : ∀ p ∈ params, ReadsWhole p)
    (hr : ReadsWhole r) : ReadsWhole (function params r) := by
  intro u rest rest' hu hrest hrest' heq
  cases hfunction : u.isFunction with
  | true =>
    cases u with
    | function params' r' =>
      obtain ⟨hlegible, _⟩ := Legible.function_iff.mp ht
      obtain ⟨hlegible', hr'⟩ := Legible.function_iff.mp hu
      simp only [chars_function, List.cons_append, List.append_assoc, List.cons.injEq, true_and] at heq
      have hclosing : ∀ {rest}, Ends (')' :: rest) := ends_cons_iff.mpr (by decide)
      obtain ⟨hskeletons, hresult⟩ := Text.intercalate_injective
        (fun p hp q hq rest rest' => hparams p hp q rest rest' (hlegible' q hq))
        (fun _ => ends_cons_iff.mpr (by decide)) hclosing hclosing (by simp) (by simp)
        (fun p hp _ => chars_append_ne (hlegible p hp) (by decide))
        (fun q hq _ => chars_append_ne (hlegible' q hq) (by decide)) heq
      simp only [List.cons.injEq, true_and] at hresult
      obtain ⟨hskeleton, hrests⟩ := hr r' rest rest' hr' hrest hrest' hresult
      refine ⟨?_, hrests⟩
      rw [skeleton, skeleton, skeletonAll_eq_map, skeletonAll_eq_map, hskeletons, hskeleton]
    | _ => cases hfunction
  | false =>
    rw [chars_function, List.cons_append, List.append_assoc] at heq
    obtain ⟨m, hm, _, tail, hcs⟩ := exists_member_of_opening hu hfunction heq.symm
    obtain ⟨hlegible, _⟩ := hu.of_mem_alternatives hm
    refine absurd hcs (params_append_ne hlegible fun p hp rest rest' hrest hrest' h => ?_)
    exact (hparams p hp m rest rest' hlegible hrest hrest' h).2

theorem readsWhole_of_alternatives (ht : t.Legible) (hfunction : t.isFunction = false)
    (hmember : ∀ m ∈ t.alternatives, ReadsMember m)
    (hwhole : ∀ m ∈ t.alternatives, m.isFunction = true → ReadsWhole m) : ReadsWhole t := by
  intro u rest rest' hu hrest hrest' heq
  cases hfunction' : u.isFunction with
  | true =>
    cases u with
    | function params r =>
      obtain ⟨hparams, _⟩ := Legible.function_iff.mp hu
      rw [chars_function, List.cons_append, List.append_assoc] at heq
      obtain ⟨m, hm, hopening, tail, hcs⟩ := exists_member_of_opening ht hfunction heq
      obtain ⟨hlegible, _⟩ := ht.of_mem_alternatives hm
      refine absurd hcs (params_append_ne hlegible fun p hp rest rest' hrest hrest' h => ?_)
      exact (hwhole m hm hopening p rest' rest (hparams p hp) hrest' hrest h.symm).2.symm
    | _ => cases hfunction'
  | false =>
    rw [chars_eq_intercalate hfunction, chars_eq_intercalate hfunction'] at heq
    obtain ⟨hskeletons, hrests⟩ := Text.intercalate_injective (S := fun _ => True)
      (fun m hm n hn rest rest' _ _ =>
        hmember m hm n rest rest' (hu.of_mem_alternatives hn).1 (hu.of_mem_alternatives hn).2)
      (fun _ => trivial) trivial trivial hrest.ne_blank hrest'.ne_blank
      (fun m hm _ => memberChars_append_ne_of_ends (ht.of_mem_alternatives hm).1
        (ht.of_mem_alternatives hm).2 hrest')
      (fun n hn _ => memberChars_append_ne_of_ends (hu.of_mem_alternatives hn).1
        (hu.of_mem_alternatives hn).2 hrest) heq
    refine ⟨?_, hrests⟩
    rw [← alternatives_skeleton, ← alternatives_skeleton] at hskeletons
    exact eq_of_alternatives_eq (skeleton_ne_union_singleton ht) (skeleton_ne_union_singleton hu)
      hskeletons

/-- What is read as a member is its own and only alternative. -/
theorem reads_of_member (ht : t.Legible) (hfunction : t.isFunction = false) (hunion : t.isUnion = false)
    (hmember : ReadsMember t) : ReadsWhole t ∧ (t.isUnion = false → ReadsMember t) := by
  refine ⟨readsWhole_of_alternatives ht hfunction ?_ ?_, fun _ => hmember⟩
  · rw [alternatives_eq_singleton hunion, List.forall_mem_singleton]
    exact hmember
  · rw [alternatives_eq_singleton hunion, List.forall_mem_singleton, hfunction]
    exact fun h => Bool.noConfusion h

/-- Legible types are read from their texts. -/
theorem Legible.reads (ht : t.Legible) : ReadsWhole t ∧ (t.isUnion = false → ReadsMember t) := by
  induction t with
  | string | number | integer | boolean | null | any =>
    exact reads_of_member ht rfl rfl (readsMember_primitive rfl)
  | var name => exact absurd ht Legible.not_var
  | array t ih =>
    exact reads_of_member ht rfl rfl (readsMember_array (ih (Legible.array_iff.mp ht)).1)
  | object ps isOpen ih =>
    obtain ⟨_, hps⟩ := Legible.object_iff.mp ht
    refine reads_of_member ht rfl rfl (readsMember_object ht fun name p hp => ?_)
    exact (ih name p hp (hps name p hp)).1
  | union ms ih =>
    obtain ⟨_, hflat, hms⟩ := Legible.union_iff.mp ht
    refine ⟨readsWhole_of_alternatives ht rfl (fun m hm => ?_) fun m hm _ => ?_, fun h => by cases h⟩
    · exact (ih m hm (hms m hm)).2 (hflat m hm)
    · exact (ih m hm (hms m hm)).1
  | function params r ihparams ihr =>
    obtain ⟨hparams, hr⟩ := Legible.function_iff.mp ht
    have hfunction := readsWhole_function ht (fun p hp => (ihparams p hp (hparams p hp)).1) (ihr hr).1
    exact ⟨hfunction, fun _ => readsMember_function hfunction⟩

theorem Legible.text_eq_iff (ht : t.Legible) (hu : u.Legible) :
    t.text = u.text ↔ t.skeleton = u.skeleton := by
  constructor
  · intro h
    exact (ht.reads.1 u [] [] hu ends_nil ends_nil (by rw [chars, h, ← chars])).1
  · intro h
    rw [← String.toList_inj]
    change t.chars = u.chars
    rw [← chars_skeleton t, h, chars_skeleton]

/-! ### Names made of letters and digits -/

/-- A letter, a digit or other number, `_` or `@`. -/
def isWordChar (c : Char) : Bool :=
  Text.isLetter c || Text.isNumber c || c == '_' || c == '@'

/-- A name that is not empty and made of letters, digits, `_` and `@`. -/
def IsWord (name : String) : Prop :=
  name ≠ "" ∧ name.toList.all isWordChar = true

instance : DecidablePred IsWord :=
  fun _ => inferInstanceAs (Decidable (_ ∧ _))

def WordNamesNode : Ty → Prop
  | object ps _ => ∀ name ∈ Entries.keys ps, IsWord name
  | _ => True

instance : DecidablePred WordNamesNode
  | object ps _ => inferInstanceAs (Decidable (∀ name ∈ Entries.keys ps, IsWord name))
  | string | number | integer | boolean | null | any | array _ | union _ | var _ | function _ _ =>
    inferInstanceAs (Decidable True)

/-- Every property inside the type is named by a word. -/
def WordNames (t : Ty) : Prop :=
  t.Everywhere WordNamesNode

instance : DecidablePred WordNames :=
  inferInstanceAs (DecidablePred (Everywhere WordNamesNode))

theorem isWordChar_eq_false {c : Char} (hc : c ∈ marks) : isWordChar c = false := by
  simp only [marks, List.mem_cons, List.not_mem_nil, or_false] at hc
  rcases hc with rfl | rfl | rfl | rfl <;> decide +kernel

theorem IsWord.notMem_marks {name : String} (h : IsWord name) : ∀ c ∈ name.toList, c ∉ marks := by
  intro c hc hmark
  have hword := List.all_eq_true.mp h.2 c hc
  rw [isWordChar_eq_false hmark] at hword
  cases hword

theorem legible_of_wordNames (ht : t.WellFormed) (hclosed : t.Closed) (hnames : t.WordNames) :
    t.Legible := by
  intro s hpart
  have hnode := ht s hpart
  cases s with
  | object ps isOpen =>
    have hwords := hnames _ hpart
    exact fun name hname => (hwords name hname).notMem_marks
  | union ms => exact ⟨hnode.1, hnode.2.1⟩
  | var name => cases hclosed _ hpart
  | _ => trivial

theorem judgeType_eq_passed_iff {text : String} {schema : Option Json} :
    Conformance.judgeType { typeText := some text, jsonSchema := schema } t = .passed ↔
      t.text = text ∧ Conformance.judgeSchema t schema = .passed := by
  simp only [Conformance.judgeType]
  split
  · rename_i heq
    exact (and_iff_right heq).symm
  · rename_i hne
    constructor
    · intro h
      cases h
    · rintro ⟨heq, _⟩
      exact absurd heq hne

/-- **The text of a type determines the type.** Closed well-formed types whose properties are named by words
have the same text if and only if they have the same skeleton: they may differ in the occurrence counts and
descriptions of properties and in nothing else. So a conformance case that expects the text of one type is
passed only by types with its skeleton, and by all of them that have the expected schema. -/
theorem text_determines_skeleton (ht : t.WellFormed) (hu : u.WellFormed) (htclosed : t.Closed)
    (huclosed : u.Closed) (htnames : t.WordNames) (hunames : u.WordNames) :
    (t.text = u.text ↔ t.skeleton = u.skeleton) ∧
      ∀ schema, Conformance.judgeType { typeText := some u.text, jsonSchema := schema } t = .passed ↔
        t.skeleton = u.skeleton ∧ Conformance.judgeSchema t schema = .passed := by
  have htlegible := legible_of_wordNames ht htclosed htnames
  have hulegible := legible_of_wordNames hu huclosed hunames
  have htext := htlegible.text_eq_iff hulegible
  refine ⟨htext, fun schema => ?_⟩
  rw [judgeType_eq_passed_iff, htext]

/-- Other occurrence counts and a description do not show, and whether the property is optional does. -/
theorem text_determines_skeleton_of_described :
    let callback : Ty := function [union [string, null]] boolean
    let item (p : Property Ty) : Ty :=
      union [callback, object [("@sku", .mandatory string), ("größe_2", p)] true, array callback]
    let plain : Property Ty := .optional integer
    let described : Property Ty :=
      { ty := integer, required := true, minOccurs := 0, maxOccurs := unbounded, description := some "in mm" }
    (item plain).text = (item described).text ∧
      Conformance.judgeType { typeText := some (item described).text } (item plain) = .passed ∧
      (item plain).text ≠ (item (.mandatory integer)).text := by
  intro callback item plain described
  have hskeleton : (item plain).skeleton = (item described).skeleton := by rfl
  have hskeleton' : (item plain).skeleton ≠ (item (.mandatory integer)).skeleton := by
    simp [item, plain, skeleton, skeletonAll, skeletonProperties, bareProperty, Property.isOptional,
      Property.optional, Property.mandatory]
  obtain ⟨htext, hpassed⟩ := text_determines_skeleton (t := item plain) (u := item described)
    (by decide) (by decide) (by decide) (by decide) (by decide +kernel) (by decide +kernel)
  obtain ⟨htext', _⟩ := text_determines_skeleton (t := item plain) (u := item (.mandatory integer))
    (by decide) (by decide) (by decide) (by decide) (by decide +kernel) (by decide +kernel)
  exact ⟨htext.mpr hskeleton, (hpassed none).mpr ⟨hskeleton, rfl⟩, mt htext'.mp hskeleton'⟩

end Ty

end SchemaInfer
