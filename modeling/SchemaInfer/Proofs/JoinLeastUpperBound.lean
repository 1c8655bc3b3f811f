import SchemaInfer.Proofs.Unions

/-!
# Joins are least upper bounds

`Ty.join` takes the wider of two related types and otherwise puts the two side by side, and
`Ty.either` always does the latter. In the subtype order both come to the same: a join fits a type
exactly if both its arguments do. From this one equivalence the join of a list inherits that it is a
least upper bound, and that the order of the list does not count.
-/

namespace SchemaInfer.Ty

variable {a b c t : Ty} {ts : List Ty}

/-! ### Two types -/

theorem wellFormed_either (ha : a.WellFormed) (hb : b.WellFormed) : (a.either b).WellFormed :=
  either_of_oneOf (.of_isPrimitive rfl) wellFormed_oneOf ha hb

theorem wellFormed_join (ha : a.WellFormed) (hb : b.WellFormed) : (a.join b).WellFormed :=
  join_of_oneOf (.of_isPrimitive rfl) wellFormed_oneOf ha hb

theorem either_fits_iff (ha : a.WellFormed) (hb : b.WellFormed) :
    Fits (a.either b) c ↔ Fits a c ∧ Fits b c := by
  unfold either
  split
  · rename_i heq
    have hba := (fits_both_of_beq ha hb heq).2
    exact ⟨fun h => ⟨h, hba.trans h⟩, And.left⟩
  · split
    · rename_i hany
      constructor
      · intro h
        exact ⟨Fits.any.trans h, Fits.any.trans h⟩
      · rintro ⟨hac, hbc⟩
        rcases Bool.or_eq_true_iff.mp hany with hany | hany
        · exact eq_any_of_isAny hany ▸ hac
        · exact eq_any_of_isAny hany ▸ hbc
    · rw [oneOf_fits_iff (List.cons_ne_nil _ _) (forall_mem_pair.mpr ⟨ha, hb⟩), forall_mem_pair]

/-- A join fits what both types fit. -/
theorem join_fits_iff (ha : a.WellFormed) (hb : b.WellFormed) :
    Fits (a.join b) c ↔ Fits a c ∧ Fits b c := by
  unfold join
  split
  · rename_i hsub
    have hab := fits_of_subtypeOf ha hb hsub
    exact ⟨fun h => ⟨hab.trans h, h⟩, And.right⟩
  · split
    · rename_i hsub
      have hba := fits_of_subtypeOf hb ha hsub
      exact ⟨fun h => ⟨h, hba.trans h⟩, And.left⟩
    · exact either_fits_iff ha hb

theorem fits_join (ha : a.WellFormed) (hb : b.WellFormed) : Fits a (a.join b) ∧ Fits b (a.join b) :=
  (join_fits_iff ha hb).mp (.refl (wellFormed_join ha hb))

/-! ### Lists of types -/

theorem wellFormed_foldl_join (hwf : ∀ s ∈ t :: ts, s.WellFormed) :
    (ts.foldl join t).WellFormed := by
  obtain ⟨ht, hts⟩ := List.forall_mem_cons.mp hwf
  exact foldl_join_of_oneOf (.of_isPrimitive rfl) wellFormed_oneOf ht hts

theorem foldl_join_fits_iff (hwf : ∀ s ∈ t :: ts, s.WellFormed) :
    Fits (ts.foldl join t) c ↔ ∀ s ∈ t :: ts, Fits s c := by
  induction ts generalizing t with
  | nil => rw [List.foldl_nil, List.forall_mem_singleton]
  | cons u ts ih =>
    obtain ⟨ht, hu, hts⟩ := List.forall_mem_cons.mp hwf |>.imp_right List.forall_mem_cons.mp
    rw [List.foldl_cons, ih (List.forall_mem_cons.mpr ⟨wellFormed_join ht hu, hts⟩)]
    simp only [List.forall_mem_cons, join_fits_iff ht hu, and_assoc]

/-- A type that all the types of a list are subtypes of, and that is a subtype of every other one with
that property. -/
structure IsLeastUpperBound (bound : Ty) (types : List Ty) : Prop where
  wellFormed : bound.WellFormed
  upper : ∀ t ∈ types, t.subtypeOf bound = true
  least : ∀ c, c.WellFormed → (∀ t ∈ types, t.subtypeOf c = true) → bound.subtypeOf c = true

theorem foldl_join_isLeastUpperBound (hwf : ∀ s ∈ t :: ts, s.WellFormed) :
    IsLeastUpperBound (ts.foldl join t) (t :: ts) := by
  have hjoin := wellFormed_foldl_join hwf
  refine ⟨hjoin, fun s hs => ?_, fun c hc hall => ?_⟩
  · have hfits := (foldl_join_fits_iff hwf).mp (.refl hjoin)
    exact subtypeOf_of_fits (hwf s hs) hjoin (hfits s hs)
  · refine subtypeOf_of_fits hjoin hc ((foldl_join_fits_iff hwf).mpr fun s hs => ?_)
    exact fits_of_subtypeOf (hwf s hs) hc (hall s hs)

theorem IsLeastUpperBound.subtypeOf {bound bound' : Ty} {types types' : List Ty}
    (h : IsLeastUpperBound bound types) (h' : IsLeastUpperBound bound' types')
    (hmem : ∀ t ∈ types, t ∈ types') : bound.subtypeOf bound' = true :=
  h.least bound' h'.wellFormed fun t ht => h'.upper t (hmem t ht)

/-- **Joins are least upper bounds.** A join is a subtype of exactly the types that both sides are
subtypes of, the plain union of the two is equivalent to it, and the join of a list of types from the
left, which gives arrays and tuples their element type, is a least upper bound of the list that does not
depend on its order up to equivalence. -/
theorem join_least_upper_bound (ha : a.WellFormed) (hb : b.WellFormed) (hc : c.WellFormed) :
    ((a.join b).subtypeOf c = true ↔ a.subtypeOf c = true ∧ b.subtypeOf c = true) ∧
      (a.either b).subtypeOf (a.join b) = true ∧ (a.join b).subtypeOf (a.either b) = true ∧
      ∀ t ts, (∀ s ∈ t :: ts, s.WellFormed) →
        elementOf (t :: ts) = ts.foldl join t ∧
        IsLeastUpperBound (ts.foldl join t) (t :: ts) ∧
        ∀ t' ts', (t' :: ts').Perm (t :: ts) →
          (ts'.foldl join t').subtypeOf (ts.foldl join t) = true ∧
          (ts.foldl join t).subtypeOf (ts'.foldl join t') = true := by
  have hjoin := wellFormed_join ha hb
  have heither := wellFormed_either ha hb
  refine ⟨?_, ?_, ?_, fun t ts hwf => ⟨rfl, foldl_join_isLeastUpperBound hwf, ?_⟩⟩
  · rw [subtypeOf_iff_fits hjoin hc, subtypeOf_iff_fits ha hc, subtypeOf_iff_fits hb hc]
    exact join_fits_iff ha hb
  · refine subtypeOf_of_fits heither hjoin ((either_fits_iff ha hb).mpr ?_)
    exact (join_fits_iff ha hb).mp (.refl hjoin)
  · refine subtypeOf_of_fits hjoin heither ((join_fits_iff ha hb).mpr ?_)
    exact (either_fits_iff ha hb).mp (.refl heither)
  · intro t' ts' hperm
    have hwf' : ∀ s ∈ t' :: ts', s.WellFormed := fun s hs => hwf s (hperm.mem_iff.mp hs)
    have hbound := foldl_join_isLeastUpperBound hwf
    have hbound' := foldl_join_isLeastUpperBound hwf'
    exact ⟨hbound'.subtypeOf hbound fun s hs => hperm.mem_iff.mp hs,
      hbound.subtypeOf hbound' fun s hs => hperm.mem_iff.mpr hs⟩

theorem join_least_upper_bound_of_nullables :
    ((array integer).join (union [string, null])).subtypeOf
        (union [string, array number, null]) = true ∧
      ([union [any, null], number].foldl join integer).subtypeOf
        ([integer, number].foldl join (union [any, null])) = true := by
  obtain ⟨hiff, _, _, hlists⟩ := join_least_upper_bound (a := array integer)
    (b := union [string, null]) (c := union [string, array number, null])
    (by decide) (by decide) (by decide)
  refine ⟨hiff.mpr ⟨by cbv, by cbv⟩, ?_⟩
  exact ((hlists (union [any, null]) [integer, number] (by decide)).2.2 integer
    [union [any, null], number] (List.Perm.swap _ _ _)).1

end SchemaInfer.Ty
