import SchemaInfer.Proofs.Nullability

/-!
# Refining what a type variable stands for

An observation of a bound variable ends in a conflict or in a wider type (`Ty.refine?`). Null decides
neither: two types conflict exactly if they are unrelated with null set aside on both sides, and one that
is nothing but null conflicts with none. Setting null aside is a recursion by nature, stated by the rules
of `Ty.Refines`: the rest is refined like the whole. It ends after one round, because what is left has no
null among its alternatives, and what covers null all the same is `any`, which is related to everything.
Whatever route an observation takes, it leads to a join of the two types.
-/

namespace SchemaInfer.Ty

variable {s t u bound found refined : Ty} {outcome : Option Ty}

/-! ### Related types -/

theorem wider?_eq_none_iff : wider? bound found = none ↔
    bound.subtypeOf found = false ∧ found.subtypeOf bound = false := by
  cases hany : found.isAny with
  | true =>
    obtain rfl := eq_any_of_isAny hany
    simp [wider?, hany, subtypeOf_any]
  | false =>
    unfold wider?
    cases found.subtypeOf bound <;> cases bound.subtypeOf found <;> simp [hany]

/-- A type that is no union fits one of the alternatives. -/
theorem exists_alternative_of_fits (hs : s.isUnion = false) (h : Fits s u) :
    ∃ n ∈ u.alternatives, Fits s n := by
  cases u with
  | union ns =>
    cases h with
    | primitive hprimitive => cases hprimitive
    | unionLeft _ => cases hs
    | unionRight hn hfit => exact ⟨_, hn, hfit⟩
  | _ => exact ⟨_, List.mem_singleton_self _, h⟩

theorem eq_null_of_fits_null (hs : s.isUnion = false) (h : Fits s null) : s = null := by
  cases h with
  | primitive _ => rfl
  | unionLeft _ => cases hs

/-- Related types are related in the same way without null, unless they are null. -/
theorem fits_withoutNull (ht : t.WellFormed) (hu : u.WellFormed) (htnull : t ≠ null)
    (hunull : u ≠ null) (h : Fits t u) : Fits t.withoutNull u.withoutNull := by
  refine (fits_iff_alternatives (wellFormed_invariant.withoutNull ht)).mpr fun s hs => ?_
  rw [alternatives_withoutNull ht htnull] at hs
  obtain ⟨hs, hsnull⟩ := List.mem_filter.mp hs
  obtain ⟨_, hflat⟩ := wellFormed_of_mem_alternatives ht hs
  obtain ⟨n, hn, hfit⟩ := exists_alternative_of_fits hflat ((fits_iff_alternatives ht).mp h s hs)
  -- only null fits null, so the alternative is one of those that are left
  have hnnull : (!n.isNull) = true := by
    rw [Bool.not_eq_true', Bool.eq_false_iff]
    intro hisNull
    obtain rfl := eq_null_of_isNull hisNull
    rw [eq_null_of_fits_null hflat hfit] at hsnull
    cases hsnull
  have hleft : n ∈ u.withoutNull.alternatives := by
    rw [alternatives_withoutNull hu hunull]
    exact List.mem_filter.mpr ⟨hn, hnnull⟩
  have hu' := wellFormed_invariant.withoutNull hu
  exact hfit.trans ((fits_iff_alternatives hu').mp (.refl hu') n hleft)

theorem subtypeOf_withoutNull (ht : t.WellFormed) (hu : u.WellFormed) (htnull : t ≠ null)
    (hunull : u ≠ null) (h : t.subtypeOf u = true) : t.withoutNull.subtypeOf u.withoutNull = true :=
  subtypeOf_of_fits (wellFormed_invariant.withoutNull ht) (wellFormed_invariant.withoutNull hu)
    (fits_withoutNull ht hu htnull hunull (fits_of_subtypeOf ht hu h))

/-- Types that are unrelated without null are unrelated, unless one is null. -/
theorem wider?_eq_none_of_withoutNull (hbound : bound.WellFormed) (hfound : found.WellFormed)
    (hbnull : bound ≠ null) (hfnull : found ≠ null)
    (h : wider? bound.withoutNull found.withoutNull = none) : wider? bound found = none := by
  obtain ⟨hbelow, habove⟩ := wider?_eq_none_iff.mp h
  refine wider?_eq_none_iff.mpr ⟨?_, ?_⟩
  · refine Bool.eq_false_iff.mpr fun hsub => Bool.eq_false_iff.mp hbelow ?_
    exact subtypeOf_withoutNull hbound hfound hbnull hfnull hsub
  · refine Bool.eq_false_iff.mpr fun hsub => Bool.eq_false_iff.mp habove ?_
    exact subtypeOf_withoutNull hfound hbound hfnull hbnull hsub

/-! ### Setting null aside -/

/-- An observation as a recursion. Related types come to the wider one, and null makes the other type
nullable. Otherwise null is set aside on both sides, as long as one of them admits it, and added to what
the observation comes to without it. -/
inductive Refines : Ty → Ty → Option Ty → Prop
  | related {bound found wider : Ty} : wider? bound found = some wider →
    Refines bound found (some wider)
  | foundNull {bound : Ty} : wider? bound null = none → Refines bound null (some bound.orNull)
  | boundNull {found : Ty} : wider? null found = none → found ≠ null →
    Refines null found (some found.orNull)
  | setAside {bound found : Ty} {outcome : Option Ty} : wider? bound found = none → bound ≠ null →
    found ≠ null → (bound.admitsNull || found.admitsNull) = true →
    Refines bound.withoutNull found.withoutNull outcome → Refines bound found (outcome.map orNull)
  | unrelated {bound found : Ty} : wider? bound found = none → bound.admitsNull = false →
    found.admitsNull = false → Refines bound found none

theorem isNull_eq_false (h : t ≠ null) : t.isNull = false :=
  Bool.eq_false_iff.mpr fun hnull => h (eq_null_of_isNull hnull)

theorem ne_null_of_not_admitsNull (h : t.admitsNull = false) : t ≠ null := by
  rintro rfl
  cases h

/-- What is left without null admits it only if it is `any`, and then the two types are related. -/
theorem admitsNull_withoutNull (hbound : bound.WellFormed) (hfound : found.WellFormed)
    (hbnull : bound ≠ null) (hfnull : found ≠ null)
    (h : wider? bound.withoutNull found.withoutNull = none) :
    bound.withoutNull.admitsNull = false ∧ found.withoutNull.admitsNull = false := by
  obtain ⟨hbelow, habove⟩ := wider?_eq_none_iff.mp h
  constructor
  · refine Bool.eq_false_iff.mpr fun hadmits => ?_
    have hany := (admitsNull_iff.mp hadmits).resolve_right (null_notMem_withoutNull hbound hbnull)
    rw [hany, subtypeOf_any] at habove
    cases habove
  · refine Bool.eq_false_iff.mpr fun hadmits => ?_
    have hany := (admitsNull_iff.mp hadmits).resolve_right (null_notMem_withoutNull hfound hfnull)
    rw [hany, subtypeOf_any] at hbelow
    cases hbelow

section Routes

variable (hwider : wider? bound found = none)
include hwider

theorem refine?_of_foundNull (hfound : found = null) : refine? bound found = some bound.orNull := by
  rw [refine?, hwider, hfound]
  rfl

theorem refine?_of_boundNull (hbound : bound = null) (hfound : found ≠ null) :
    refine? bound found = some found.orNull := by
  rw [refine?, hwider, hbound, isNull_eq_false hfound]
  rfl

theorem refine?_of_admitsNull (hbound : bound ≠ null) (hfound : found ≠ null)
    (h : (bound.admitsNull || found.admitsNull) = true) :
    refine? bound found = (wider? bound.withoutNull found.withoutNull).map orNull := by
  rw [refine?, hwider, isNull_eq_false hbound, isNull_eq_false hfound, h]
  rfl

theorem refine?_of_not_admitsNull (hbound : bound.admitsNull = false)
    (hfound : found.admitsNull = false) : refine? bound found = none := by
  rw [refine?, hwider, isNull_eq_false (ne_null_of_not_admitsNull hbound),
    isNull_eq_false (ne_null_of_not_admitsNull hfound), hbound, hfound]
  rfl

end Routes

/-- With null set aside there is no second round. -/
theorem refine?_withoutNull (hbound : bound.WellFormed) (hfound : found.WellFormed)
    (hbnull : bound ≠ null) (hfnull : found ≠ null) :
    refine? bound.withoutNull found.withoutNull = wider? bound.withoutNull found.withoutNull := by
  cases hwider : wider? bound.withoutNull found.withoutNull with
  | some wider => rw [refine?, hwider]
  | none =>
    obtain ⟨hb, hf⟩ := admitsNull_withoutNull hbound hfound hbnull hfnull hwider
    exact refine?_of_not_admitsNull hwider hb hf

theorem eq_refine?_of_refines (hbound : bound.WellFormed) (hfound : found.WellFormed)
    (h : Refines bound found outcome) : outcome = refine? bound found := by
  induction h with
  | related hwider => rw [refine?, hwider]
  | foundNull hwider => exact (refine?_of_foundNull hwider rfl).symm
  | boundNull hwider hnull => exact (refine?_of_boundNull hwider rfl hnull).symm
  | setAside hwider hbnull hfnull hadmits _ ih =>
    rw [refine?_of_admitsNull hwider hbnull hfnull hadmits,
      ih (wellFormed_invariant.withoutNull hbound) (wellFormed_invariant.withoutNull hfound),
      refine?_withoutNull hbound hfound hbnull hfnull]
  | unrelated hwider hb hf => exact (refine?_of_not_admitsNull hwider hb hf).symm

/-- The recursion ends, after at most one round. -/
theorem refines_refine? (hbound : bound.WellFormed) (hfound : found.WellFormed) :
    Refines bound found (refine? bound found) := by
  cases hwider : wider? bound found with
  | some wider =>
    rw [refine?, hwider]
    exact .related hwider
  | none =>
    by_cases hfnull : found = null
    · subst hfnull
      rw [refine?_of_foundNull hwider rfl]
      exact .foundNull hwider
    by_cases hbnull : bound = null
    · subst hbnull
      rw [refine?_of_boundNull hwider rfl hfnull]
      exact .boundNull hwider hfnull
    cases hadmits : bound.admitsNull || found.admitsNull with
    | true =>
      rw [refine?_of_admitsNull hwider hbnull hfnull hadmits]
      refine .setAside hwider hbnull hfnull hadmits ?_
      cases hrest : wider? bound.withoutNull found.withoutNull with
      | some wider => exact .related hrest
      | none =>
        obtain ⟨hb, hf⟩ := admitsNull_withoutNull hbound hfound hbnull hfnull hrest
        exact .unrelated hrest hb hf
    | false =>
      obtain ⟨hb, hf⟩ := Bool.or_eq_false_iff.mp hadmits
      rw [refine?_of_not_admitsNull hwider hb hf]
      exact .unrelated hwider hb hf

/-! ### Conflicts and joins -/

/-- An observation ends in a conflict if the types are unrelated without null, and neither is null. -/
theorem refine?_eq_none_iff (hbound : bound.WellFormed) (hfound : found.WellFormed) :
    refine? bound found = none ↔
      bound ≠ null ∧ found ≠ null ∧ wider? bound.withoutNull found.withoutNull = none := by
  cases hwider : wider? bound found with
  | some wider =>
    have hrefined : refine? bound found = some wider := by rw [refine?, hwider]
    simp only [hrefined, reduceCtorEq, false_iff]
    rintro ⟨hbnull, hfnull, hrest⟩
    rw [wider?_eq_none_of_withoutNull hbound hfound hbnull hfnull hrest] at hwider
    cases hwider
  | none =>
    by_cases hfnull : found = null
    · rw [refine?_of_foundNull hwider hfnull]
      simp [hfnull]
    by_cases hbnull : bound = null
    · rw [refine?_of_boundNull hwider hbnull hfnull]
      simp [hbnull]
    cases hadmits : bound.admitsNull || found.admitsNull with
    | true => simp [refine?_of_admitsNull hwider hbnull hfnull hadmits, hbnull, hfnull]
    | false =>
      obtain ⟨hb, hf⟩ := Bool.or_eq_false_iff.mp hadmits
      have hself : ∀ {t : Ty}, t.WellFormed → t.admitsNull = false → t.withoutNull = t :=
        fun ht h => withoutNull_eq_self ht fun hmem =>
          Bool.eq_false_iff.mp h (admitsNull_iff.mpr (Or.inr hmem))
      simp [refine?_of_not_admitsNull hwider hb hf, hbnull, hfnull, hself hbound hb, hself hfound hf,
        hwider]

/-- What is found instead is a join. -/
theorem refine?_equivalent_join (hbound : bound.WellFormed) (hfound : found.WellFormed)
    (hany : found.isAny = false) (h : refine? bound found = some refined) :
    Fits refined (bound.join found) ∧ Fits (bound.join found) refined := by
  obtain ⟨hboundJoin, hfoundJoin⟩ := fits_join hbound hfound
  obtain ⟨hold, hnew⟩ := fits_of_refine? hbound hfound h
  constructor
  · exact refine?_fits hbound hfound h hboundJoin hfoundJoin
  · exact (join_fits_iff hbound hfound).mpr ⟨hold, hnew hany⟩

/-- **Refinement ends in a conflict or in a join.** The recursion that sets null aside has an outcome, and
no other than `refine?` gives. It is a conflict if and only if neither type is null and neither is a subtype
of the other with null taken away from both. Otherwise, and unless nothing is known about the type found,
it is a type equivalent to the join of the two. -/
theorem refine?_conflict_or_join (hbound : bound.WellFormed) (hfound : found.WellFormed) :
    (∀ outcome, Refines bound found outcome ↔ outcome = refine? bound found) ∧
      (refine? bound found = none ↔ bound ≠ null ∧ found ≠ null ∧
        bound.withoutNull.subtypeOf found.withoutNull = false ∧
        found.withoutNull.subtypeOf bound.withoutNull = false) ∧
      (found.isAny = false → ∀ refined, refine? bound found = some refined →
        refined.subtypeOf (bound.join found) = true ∧ (bound.join found).subtypeOf refined = true) := by
  refine ⟨fun outcome => ⟨eq_refine?_of_refines hbound hfound, ?_⟩, ?_, fun hany refined h => ?_⟩
  · rintro rfl
    exact refines_refine? hbound hfound
  · rw [refine?_eq_none_iff hbound hfound, wider?_eq_none_iff]
  · have hrefined := wellFormed_invariant.refine? hbound hfound h
    have hjoin := wellFormed_join hbound hfound
    obtain ⟨hbelow, habove⟩ := refine?_equivalent_join hbound hfound hany h
    exact ⟨subtypeOf_of_fits hrefined hjoin hbelow, subtypeOf_of_fits hjoin hrefined habove⟩

/-- Null on one side of related types, which takes a round, and on both sides of unrelated ones. -/
theorem refine?_conflict_or_join_of_nullables :
    let bound : Ty := union [array integer, null]
    let found : Ty := array (union [number, null])
    let other : Ty := union [null, string]
    bound.WellFormed ∧ found.WellFormed ∧ other.WellFormed ∧
      refine? bound found = some (union [array (union [number, null]), null]) ∧
      Refines bound found (some (union [array (union [number, null]), null])) ∧
      (union [array (union [number, null]), null]).subtypeOf (bound.join found) = true ∧
      (bound.join found).subtypeOf (union [array (union [number, null]), null]) = true ∧
      refine? bound other = none := by
  intro bound found other
  have hbound : bound.WellFormed := by decide
  have hfound : found.WellFormed := by decide
  have hother : other.WellFormed := by decide
  have hrefined : refine? bound found = some (union [array (union [number, null]), null]) := by cbv
  obtain ⟨houtcome, _, hjoin⟩ := refine?_conflict_or_join hbound hfound
  obtain ⟨_, hconflict, _⟩ := refine?_conflict_or_join hbound hother
  obtain ⟨hbelow, habove⟩ := hjoin rfl _ hrefined
  refine ⟨hbound, hfound, hother, hrefined, (houtcome _).mpr hrefined.symm, hbelow, habove,
    hconflict.mpr ⟨?_, ?_, ?_, ?_⟩⟩
  · exact Ty.noConfusion
  · exact Ty.noConfusion
  · cbv
  · cbv

end SchemaInfer.Ty
