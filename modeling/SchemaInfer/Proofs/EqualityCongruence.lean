import SchemaInfer.Proofs.Unions

/-!
# Equal types are interchangeable

On irredundant types equality is an equivalence, and subtyping and joins do not tell equal types apart.
For subtyping this is transitivity, since equal types fit each other. A join that puts its types side by
side drops what is equal to an earlier alternative; from equal types it keeps equally many alternatives,
each with its equal on the other side, by the counting argument that also makes equality symmetric.
-/

namespace SchemaInfer.Ty

variable {a a' b b' c s t u : Ty} {types types' : List Ty}

/-! ### Unions of equal types -/

/-- Every type on the left has an equal on the right. -/
def Covered (ts us : List Ty) : Prop :=
  ∀ t ∈ ts, ∃ u ∈ us, (t == u) = true

theorem Irredundant.of_mem_alternatives (ht : t.Irredundant) (hs : s ∈ t.alternatives) :
    s.Irredundant := by
  cases t with
  | union ms => exact (Irredundant.union_iff.mp ht).2 s hs
  | _ => exact List.mem_singleton.mp hs ▸ ht

theorem covered_alternatives (h : (t == u) = true) : Covered t.alternatives u.alternatives := by
  intro s hs
  cases t with
  | union ms =>
    obtain ⟨ns, rfl, _, hpartner⟩ := exists_of_union_beq h
    exact hpartner s hs
  | _ =>
    obtain rfl := List.mem_singleton.mp hs
    cases u with
    | union ns => cases h
    | _ => exact ⟨_, List.mem_singleton_self _, h⟩

theorem Covered.distinctAlternatives (h : Covered types types') :
    Covered (distinctAlternatives types) (distinctAlternatives types') := by
  intro s hs
  obtain ⟨t, ht, hs⟩ := List.mem_flatMap.mp (mem_of_mem_eraseDups hs)
  obtain ⟨t', ht', htt'⟩ := h t ht
  obtain ⟨s', hs', hss'⟩ := covered_alternatives htt' s hs
  -- the equal of `s` may have been dropped, for something that it is equal to
  obtain ⟨kept, hkept, heq⟩ := exists_kept_of_mem (List.mem_flatMap.mpr ⟨t', ht', hs'⟩)
  rcases heq with rfl | heq
  · exact ⟨s', hkept, hss'⟩
  · exact ⟨kept, hkept, beq_trans hss' heq⟩

theorem irredundant_of_mem_distinct (htypes : ∀ t ∈ types, t.Irredundant)
    (hs : s ∈ distinctAlternatives types) : s.Irredundant := by
  obtain ⟨t, ht, hs⟩ := List.mem_flatMap.mp (mem_of_mem_eraseDups hs)
  exact (htypes t ht).of_mem_alternatives hs

/-- Distinct alternatives have different equals on the other side, so there are no more of them. -/
theorem Covered.length_distinct_le (h : Covered types types')
    (htypes : ∀ t ∈ types, t.Irredundant) (htypes' : ∀ t ∈ types', t.Irredundant) :
    (Ty.distinctAlternatives types).length ≤ (Ty.distinctAlternatives types').length := by
  refine length_le_of_partners ?_ h.distinctAlternatives
  refine pairwise_eraseDups.imp_of_mem fun {m m'} hm _ hne n hn hmn hm'n => ?_
  have hnm := (irredundant_of_mem_distinct htypes hm).beq_symm
    (irredundant_of_mem_distinct htypes' hn) hmn
  rw [beq_trans hm'n hnm] at hne
  cases hne

/-- Unions of types that are equal, in whatever order, are equal. -/
theorem oneOf_beq_oneOf (hforth : Covered types types') (hback : Covered types' types)
    (htypes : ∀ t ∈ types, t.Irredundant) (htypes' : ∀ t ∈ types', t.Irredundant) :
    (oneOf types == oneOf types') = true := by
  have hcovered := hforth.distinctAlternatives
  have hlength : (distinctAlternatives types).length = (distinctAlternatives types').length :=
    Nat.le_antisymm (hforth.length_distinct_le htypes htypes')
      (hback.length_distinct_le htypes' htypes)
  unfold oneOf
  rw [← distinctAlternatives, ← distinctAlternatives]
  generalize distinctAlternatives types = ms at hcovered hlength ⊢
  generalize distinctAlternatives types' = ns at hcovered hlength ⊢
  rcases ms with _ | ⟨m, _ | ⟨m₂, ms⟩⟩
  · obtain rfl := List.length_eq_zero_iff.mp hlength.symm
    rfl
  · obtain ⟨n, rfl⟩ := List.length_eq_one_iff.mp hlength.symm
    obtain ⟨n', hn', hmn⟩ := hcovered m List.mem_cons_self
    obtain rfl := List.mem_singleton.mp hn'
    exact hmn
  · rcases ns with _ | ⟨n, _ | ⟨n₂, ns⟩⟩
    · simp at hlength
    · simp at hlength
    · exact union_beq_iff.mpr ⟨hlength, hcovered⟩

/-! ### Subtyping and joins -/

theorem isAny_eq_of_beq (h : (a == b) = true) : a.isAny = b.isAny := by
  cases a with
  | any =>
    obtain rfl := eq_of_primitive_beq rfl h
    rfl
  | _ =>
    cases b with
    | any => cases h
    | _ => rfl

section Congruence

variable (ha : a.Irredundant) (ha' : a'.Irredundant) (hb : b.Irredundant) (hb' : b'.Irredundant)
  (haa' : (a == a') = true) (hbb' : (b == b') = true)
include ha ha' hb hb' haa' hbb'

theorem subtypeOf_congr : a.subtypeOf b = a'.subtypeOf b' := by
  obtain ⟨hforth, hback⟩ := ha.fits_both_of_beq ha' haa'
  obtain ⟨hforth', hback'⟩ := hb.fits_both_of_beq hb' hbb'
  rw [Bool.eq_iff_iff, ha.subtypeOf_iff_fits hb, ha'.subtypeOf_iff_fits hb']
  constructor
  · intro h
    exact (hback.trans h).trans hforth'
  · intro h
    exact (hforth.trans h).trans hback'

theorem beq_congr : (a == b) = (a' == b') := by
  rw [Bool.eq_iff_iff]
  constructor
  · intro h
    exact beq_trans (ha.beq_symm ha' haa') (beq_trans h hbb')
  · intro h
    exact beq_trans haa' (beq_trans h (hb.beq_symm hb' hbb'))

theorem either_beq_either : (a.either b == a'.either b') = true := by
  unfold either
  rw [beq_congr ha ha' hb hb' haa' hbb', isAny_eq_of_beq haa', isAny_eq_of_beq hbb']
  split
  · exact haa'
  split
  · rfl
  · refine oneOf_beq_oneOf ?_ ?_ (forall_mem_pair.mpr ⟨ha, hb⟩) (forall_mem_pair.mpr ⟨ha', hb'⟩)
    · exact forall_mem_pair.mpr
        ⟨⟨a', List.mem_cons_self, haa'⟩, ⟨b', by simp, hbb'⟩⟩
    · exact forall_mem_pair.mpr
        ⟨⟨a, List.mem_cons_self, ha.beq_symm ha' haa'⟩, ⟨b, by simp, hb.beq_symm hb' hbb'⟩⟩

theorem join_beq_join : (a.join b == a'.join b') = true := by
  unfold join
  rw [subtypeOf_congr ha ha' hb hb' haa' hbb', subtypeOf_congr hb hb' ha ha' hbb' haa']
  split
  · exact hbb'
  split
  · exact haa'
  · exact either_beq_either ha ha' hb hb' haa' hbb'

end Congruence

/-- **Equality is an equivalence that subtyping and joins respect.** On types in which no object repeats a
name and no union a member, at any depth, equality is reflexive, symmetric and transitive, and equal types
have the same subtypes and supertypes and equal joins. -/
theorem beq_equivalence_respected (ha : a.Irredundant) (ha' : a'.Irredundant) (hb : b.Irredundant)
    (hb' : b'.Irredundant) :
    (a == a) = true ∧ ((a == b) = true → (b == a) = true) ∧
      ((a == b) = true → (b == c) = true → (a == c) = true) ∧
      ((a == a') = true → (b == b') = true →
        a.subtypeOf b = a'.subtypeOf b' ∧ (a.join b == a'.join b') = true) := by
  refine ⟨ha.beq_refl, ha.beq_symm hb, beq_trans, fun haa' hbb' => ⟨?_, ?_⟩⟩
  · exact subtypeOf_congr ha ha' hb hb' haa' hbb'
  · exact join_beq_join ha ha' hb hb' haa' hbb'

/-- Members, properties and members inside of members in other orders. -/
theorem beq_equivalence_respected_of_reordered :
    let id : Property Ty := .mandatory string
    let size : Property Ty := .optional (union [integer, null])
    let size' : Property Ty := .optional (union [null, integer])
    let a : Ty := union [object [("id", id), ("size", size)] false, array (union [string, boolean])]
    let a' : Ty := union [array (union [boolean, string]), object [("size", size'), ("id", id)] false]
    let b : Ty := union [function [union [number, null]] boolean, array boolean]
    let b' : Ty := union [array boolean, function [union [null, number]] boolean]
    (a.Irredundant ∧ a'.Irredundant ∧ b.Irredundant ∧ b'.Irredundant) ∧
      (a == a') = true ∧ (a' == a) = true ∧ (b == b') = true ∧ a.subtypeOf b = a'.subtypeOf b' ∧
      (a.join b == a'.join b') = true := by
  intro id size size' a a' b b'
  have ha : a.Irredundant := by decide
  have ha' : a'.Irredundant := by decide
  have hb : b.Irredundant := by decide
  have hb' : b'.Irredundant := by decide
  have haa' : (a == a') = true := by decide
  have hbb' : (b == b') = true := by decide
  obtain ⟨_, hsymm, _, _⟩ := beq_equivalence_respected ha ha' ha' ha (c := a)
  obtain ⟨_, _, _, hrespected⟩ := beq_equivalence_respected ha ha' hb hb' (c := b)
  obtain ⟨hsub, hjoin⟩ := hrespected haa' hbb'
  exact ⟨⟨ha, ha', hb, hb'⟩, haa', hsymm haa', hbb', hsub, hjoin⟩

end SchemaInfer.Ty
