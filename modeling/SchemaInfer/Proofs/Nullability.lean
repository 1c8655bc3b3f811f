import SchemaInfer.Proofs.SharedVariable

/-!
# Adding null and taking it away

`Ty.orNull` and `Ty.withoutNull` build their results anew: unions are opened up, repetitions dropped, and a
lone member stands for itself. A well-formed type is determined by its alternatives, and on those both
operations are simple: null is put last if it is missing, or left out. From this follow the laws of the
two. In one of them types are only equivalent: `any` covers null without having it among its alternatives,
so null that is taken away from beside `any` does not come back.
-/

namespace SchemaInfer.Ty

variable {t u : Ty}

/-! ### Alternatives -/

theorem WellFormed.eq_of_alternatives_eq (ht : t.WellFormed) (hu : u.WellFormed)
    (h : t.alternatives = u.alternatives) : t = u := by
  have hlength : ∀ {t : Ty}, t.WellFormed → ∀ s, t ≠ union [s] := by
    rintro t hwf s rfl
    obtain ⟨htwo, _⟩ := WellFormed.union_iff.mp hwf
    simp at htwo
  exact Ty.eq_of_alternatives_eq (hlength ht) (hlength hu) h

theorem admitsNull_iff : t.admitsNull = true ↔ t = any ∨ null ∈ t.alternatives := by
  cases t with
  | union ms =>
    simp only [admitsNull, List.any_eq_true, alternatives, reduceCtorEq, false_or]
    constructor
    · rintro ⟨m, hm, hnull⟩
      exact eq_null_of_isNull hnull ▸ hm
    · intro hnull
      exact ⟨null, hnull, rfl⟩
  | _ => simp [admitsNull, alternatives]

/-- The members of a well-formed union are not all null. -/
theorem filter_not_isNull_ne_nil {ms : List Ty} (h : (union ms).WellFormed) :
    (ms.filter fun m => !m.isNull) ≠ [] := by
  obtain ⟨hlength, _, hdistinct, _⟩ := WellFormed.union_iff.mp h
  intro hnil
  have hall : ∀ m ∈ ms, m = null := by
    intro m hm
    exact eq_null_of_isNull (by simpa using List.filter_eq_nil_iff.mp hnil m hm)
  rcases ms with _ | ⟨m, _ | ⟨m', ms⟩⟩
  · cases hlength
  · simp at hlength
  · obtain ⟨hfirst, _⟩ := List.pairwise_cons.mp hdistinct
    have hne := hfirst m' List.mem_cons_self
    rw [hall m List.mem_cons_self, hall m' (List.mem_cons_of_mem _ List.mem_cons_self)] at hne
    cases hne

/-- Without null, the other alternatives are left in their order. -/
theorem alternatives_withoutNull (ht : t.WellFormed) (hnull : t ≠ null) :
    t.withoutNull.alternatives = t.alternatives.filter fun s => !s.isNull := by
  cases t with
  | union ms =>
    obtain ⟨_, hflat, hdistinct, hms⟩ := WellFormed.union_iff.mp ht
    exact alternatives_oneOf (filter_not_isNull_ne_nil ht)
      (fun m hm => hflat m (List.mem_of_mem_filter hm)) (hdistinct.filter _)
      fun m hm => hms m (List.mem_of_mem_filter hm)
  | null => exact absurd rfl hnull
  | _ => rfl

theorem null_notMem_withoutNull (ht : t.WellFormed) (hnull : t ≠ null) :
    null ∉ t.withoutNull.alternatives := by
  rw [alternatives_withoutNull ht hnull]
  intro hmem
  cases (List.mem_filter.mp hmem).2

theorem ne_null_of_notMem (h : null ∉ t.alternatives) : t ≠ null := by
  rintro rfl
  exact h (List.mem_singleton_self null)

theorem filter_not_isNull_eq_self {ts : List Ty} (h : null ∉ ts) :
    (ts.filter fun s => !s.isNull) = ts := by
  rw [List.filter_eq_self]
  intro s hs
  rw [Bool.not_eq_true', Bool.eq_false_iff]
  intro hnull
  exact h (eq_null_of_isNull hnull ▸ hs)

/-- A type without null among its alternatives is left as it is. -/
theorem withoutNull_eq_self (ht : t.WellFormed) (h : null ∉ t.alternatives) : t.withoutNull = t := by
  apply (wellFormed_invariant.withoutNull ht).eq_of_alternatives_eq ht
  rw [alternatives_withoutNull ht (ne_null_of_notMem h), filter_not_isNull_eq_self h]

/-! ### Laws -/

theorem admitsNull_orNull (ht : t.WellFormed) : t.orNull.admitsNull = true := by
  rw [admitsNull_iff]
  rcases orNull_eq ht with ⟨heq, hadmits⟩ | ⟨heq, _⟩
  · rw [heq]
    exact hadmits
  · rw [heq]
    exact Or.inr (List.mem_append_right _ (List.mem_singleton_self null))

theorem orNull_eq_self (ht : t.WellFormed) (h : t.admitsNull = true) : t.orNull = t := by
  rcases orNull_eq ht with ⟨heq, _⟩ | ⟨heq, habsent⟩
  · exact heq
  · rcases admitsNull_iff.mp h with rfl | hmem
    · rfl
    · exact absurd hmem habsent

theorem withoutNull_withoutNull (ht : t.WellFormed) : t.withoutNull.withoutNull = t.withoutNull := by
  by_cases hnull : t = null
  · rw [hnull]
    rfl
  · exact withoutNull_eq_self (wellFormed_invariant.withoutNull ht) (null_notMem_withoutNull ht hnull)

/-- Null that was added can be taken away again. -/
theorem withoutNull_orNull (ht : t.WellFormed) (h : t.admitsNull = false) :
    t.orNull.withoutNull = t := by
  have hwf := wellFormed_invariant.orNull ht
  rcases orNull_eq ht with ⟨_, hadmits⟩ | ⟨heq, habsent⟩
  · rw [admitsNull_iff.mpr hadmits] at h
    cases h
  · have hnull : t.orNull ≠ null := by
      rw [heq]
      exact Ty.noConfusion
    apply (wellFormed_invariant.withoutNull hwf).eq_of_alternatives_eq ht
    rw [alternatives_withoutNull hwf hnull, heq]
    change (t.alternatives ++ [null]).filter (fun s => !s.isNull) = t.alternatives
    rw [List.filter_append, filter_not_isNull_eq_self habsent]
    exact List.append_nil _

/-- Null that was taken away can be added again. -/
theorem orNull_withoutNull_equivalent (ht : t.WellFormed) (h : t.admitsNull = true) :
    Fits t.withoutNull.orNull t ∧ Fits t t.withoutNull.orNull := by
  have hwf := wellFormed_invariant.withoutNull ht
  constructor
  · exact orNull_fits hwf (withoutNull_fits ht) (null_fits_of_admitsNull h)
  · exact fits_orNull_of_withoutNull ht hwf (.refl hwf)

theorem orNull_equivalent_join (ht : t.WellFormed) :
    Fits t.orNull (t.join null) ∧ Fits (t.join null) t.orNull := by
  have hnull : null.WellFormed := .of_isPrimitive rfl
  obtain ⟨hself, hnull'⟩ := fits_join ht hnull
  exact ⟨orNull_fits ht hself hnull', (join_fits_iff ht hnull).mpr (fits_orNull ht)⟩

/-- **The laws of nullability.** Adding null gives a nullable type that is equivalent to the join with null.
Adding it twice and taking it away twice are the same as once. Null that was added to a type without it can
be taken away again, which gives the type itself; null that was taken away from a type with it can be added
again, which gives an equivalent type. -/
theorem nullability_laws (ht : t.WellFormed) :
    (t.orNull.admitsNull = true ∧
        t.orNull.subtypeOf (t.join null) = true ∧ (t.join null).subtypeOf t.orNull = true) ∧
      (t.orNull.orNull = t.orNull ∧ t.withoutNull.withoutNull = t.withoutNull) ∧
      (t.admitsNull = false → t.orNull.withoutNull = t) ∧
      (t.admitsNull = true →
        t.withoutNull.orNull.subtypeOf t = true ∧ t.subtypeOf t.withoutNull.orNull = true) := by
  have horNull := wellFormed_invariant.orNull ht
  have hback := wellFormed_invariant.orNull (wellFormed_invariant.withoutNull ht)
  have hjoin : (t.join null).WellFormed := wellFormed_join ht (.of_isPrimitive rfl)
  obtain ⟨hbelow, habove⟩ := orNull_equivalent_join ht
  refine ⟨⟨admitsNull_orNull ht, ?_, ?_⟩, ⟨?_, withoutNull_withoutNull ht⟩, withoutNull_orNull ht, ?_⟩
  · exact subtypeOf_of_fits horNull hjoin hbelow
  · exact subtypeOf_of_fits hjoin horNull habove
  · exact orNull_eq_self horNull (admitsNull_orNull ht)
  · intro hadmits
    obtain ⟨hbelow, habove⟩ := orNull_withoutNull_equivalent ht hadmits
    exact ⟨subtypeOf_of_fits hback ht hbelow, subtypeOf_of_fits ht hback habove⟩

/-- Beside `any`: null is added to a union that covers it already, and taken away from one in which nothing
but `any` is left. -/
theorem nullability_laws_beside_any :
    let t : Ty := union [any, array (union [null, string])]
    let u : Ty := union [null, any]
    t.WellFormed ∧ u.WellFormed ∧ t.admitsNull = false ∧ u.admitsNull = true ∧
      t.orNull = union [any, array (union [null, string]), null] ∧
      t.orNull.subtypeOf (t.join null) = true ∧ (t.join null).subtypeOf t.orNull = true ∧
      t.orNull.withoutNull = t ∧ u.withoutNull.orNull = any ∧
      u.withoutNull.orNull.subtypeOf u = true ∧ u.subtypeOf u.withoutNull.orNull = true := by
  intro t u
  have ht : t.WellFormed := by decide
  have hu : u.WellFormed := by decide
  obtain ⟨⟨_, hbelow, habove⟩, _, hround, _⟩ := nullability_laws ht
  obtain ⟨_, _, _, hback⟩ := nullability_laws hu
  exact ⟨ht, hu, rfl, rfl, rfl, hbelow, habove, hround rfl, rfl, hback rfl⟩

end SchemaInfer.Ty
