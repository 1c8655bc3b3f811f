import SchemaInfer.Proofs.SubtypePreorder

/-!
# Unions as sets of alternatives

`Ty.oneOf` opens up the unions among its arguments and drops what is equal to an earlier alternative.
The result is well-formed, and in the subtype order nothing got lost: it fits a type exactly if all the
arguments do, because what was dropped is equal to something that was kept. Joins are made of unions and
inherit what unions do.
-/

namespace SchemaInfer

/-! ### Dropping repetitions

`List.eraseDups` is used here at an equality that does not imply identity, so its library lemmas do not
apply. -/

section EraseDups

variable {α : Type} [BEq α] {x : α} {xs : List α}

/-- Induction along `List.eraseDups`: it keeps the first element and goes on with the others that are
unlike it. -/
theorem eraseDups_induction {motive : List α → Prop} (nil : motive [])
    (cons : ∀ x xs, motive (xs.filter fun y => !y == x) → motive (x :: xs)) : ∀ xs, motive xs
  | [] => nil
  | x :: xs => cons x xs (eraseDups_induction nil cons _)
termination_by xs => xs.length
decreasing_by exact Nat.lt_succ_of_le (List.length_filter_le _ _)

theorem mem_of_mem_eraseDups (h : x ∈ xs.eraseDups) : x ∈ xs := by
  induction xs using eraseDups_induction with
  | nil => exact h
  | cons y ys ih =>
    rw [List.eraseDups_cons] at h
    rcases List.mem_cons.mp h with rfl | hrest
    · exact List.mem_cons_self
    · exact List.mem_cons_of_mem _ (List.mem_of_mem_filter (ih hrest))

/-- What is dropped is equal to something that is kept. -/
theorem exists_kept_of_mem (h : x ∈ xs) : ∃ y ∈ xs.eraseDups, x = y ∨ (x == y) = true := by
  induction xs using eraseDups_induction with
  | nil => cases h
  | cons y ys ih =>
    rw [List.eraseDups_cons]
    by_cases hxy : (x == y) = true
    · exact ⟨y, List.mem_cons_self, Or.inr hxy⟩
    · rcases List.mem_cons.mp h with rfl | hmem
      · exact ⟨x, List.mem_cons_self, Or.inl rfl⟩
      · obtain ⟨z, hz, hxz⟩ := ih (List.mem_filter.mpr ⟨hmem, by simpa using hxy⟩)
        exact ⟨z, List.mem_cons_of_mem _ hz, hxz⟩

theorem pairwise_eraseDups : xs.eraseDups.Pairwise fun x y => (y == x) = false := by
  induction xs using eraseDups_induction with
  | nil => exact .nil
  | cons x xs ih =>
    rw [List.eraseDups_cons]
    refine .cons (fun y hy => ?_) ih
    simpa using (List.mem_filter.mp (mem_of_mem_eraseDups hy)).2

theorem eraseDups_eq_self (h : xs.Pairwise fun x y => (y == x) = false) : xs.eraseDups = xs := by
  induction h with
  | nil => rfl
  | cons hx _ ih =>
    rw [List.eraseDups_cons, List.filter_eq_self.mpr, ih]
    intro y hy
    rw [hx y hy, Bool.not_false]

theorem eraseDups_concat_of_mem (hxs : xs.Pairwise fun y z => (z == y) = false)
    (hx : ∃ y ∈ xs, (x == y) = true) : (xs ++ [x]).eraseDups = xs := by
  induction hxs with
  | nil => simp at hx
  | @cons y ys hy hys ih =>
    have hkept : ys.filter (fun z => !z == y) = ys := by
      rw [List.filter_eq_self]
      intro z hz
      simp [hy z hz]
    rw [List.cons_append, List.eraseDups_cons, List.filter_append, hkept]
    by_cases hxy : (x == y) = true
    · simp [hxy, eraseDups_eq_self hys]
    · obtain ⟨z, hz, hxz⟩ := hx
      rcases List.mem_cons.mp hz with rfl | hz
      · exact absurd hxz hxy
      · simp [hxy, ih ⟨z, hz, hxz⟩]

end EraseDups

namespace Ty

variable {a b c s t u : Ty} {ms types : List Ty}

theorem forall_mem_pair {P : Ty → Prop} : (∀ t ∈ [a, b], P t) ↔ P a ∧ P b := by
  rw [List.forall_mem_cons, List.forall_mem_singleton]

/-! ### Alternatives -/

theorem alternatives_eq_singleton (ht : t.isUnion = false) : t.alternatives = [t] := by
  cases t with
  | union ms => cases ht
  | _ => rfl

/-- Types with the same alternatives in the same order are the same, as long as neither is a union of a
single type. -/
theorem eq_of_alternatives_eq (ht : ∀ s, t ≠ union [s]) (hu : ∀ s, u ≠ union [s])
    (h : t.alternatives = u.alternatives) : t = u := by
  cases t with
  | union ms =>
    cases u with
    | union ns => exact congrArg union h
    | _ => exact absurd (congrArg union h) (ht _)
  | _ =>
    cases u with
    | union ns => exact absurd (congrArg union h.symm) (hu _)
    | _ => exact List.singleton_inj.mp h

theorem wellFormed_of_mem_alternatives (ht : t.WellFormed) (hs : s ∈ t.alternatives) :
    s.WellFormed ∧ s.isUnion = false := by
  cases t with
  | union ms =>
    obtain ⟨_, hflat, _, hmembers⟩ := WellFormed.union_iff.mp ht
    exact ⟨hmembers s hs, hflat s hs⟩
  | _ =>
    obtain rfl := List.mem_singleton.mp hs
    exact ⟨ht, rfl⟩

theorem fits_iff_alternatives (ht : t.WellFormed) :
    Fits t c ↔ ∀ s ∈ t.alternatives, Fits s c := by
  cases t with
  | union ms =>
    obtain ⟨_, _, _, hmembers⟩ := WellFormed.union_iff.mp ht
    constructor
    · intro h m hm
      exact Fits.trans (.unionRight hm (.refl (hmembers m hm))) h
    · exact .unionLeft
  | _ => simp [alternatives]

theorem alternatives_ne_nil (ht : t.WellFormed) : t.alternatives ≠ [] := by
  cases t with
  | union ms =>
    obtain ⟨hlength, _⟩ := WellFormed.union_iff.mp ht
    exact List.ne_nil_of_length_pos (Nat.lt_of_lt_of_le Nat.zero_lt_two hlength)
  | _ => simp [alternatives]

theorem pairwise_alternatives (ht : t.WellFormed) :
    t.alternatives.Pairwise fun m n => (n == m) = false := by
  cases t with
  | union ms =>
    obtain ⟨_, _, hdistinct, hms⟩ := WellFormed.union_iff.mp ht
    exact hdistinct.imp_of_mem fun hm hn => beq_eq_false_symm (hms _ hm) (hms _ hn)
  | _ => simp [alternatives]

/-! ### Unions of types -/

/-- The alternatives of a union of types, each once. -/
def distinctAlternatives (types : List Ty) : List Ty :=
  (types.flatMap alternatives).eraseDups

theorem wellFormed_of_mem_distinct (htypes : ∀ t ∈ types, t.WellFormed)
    (hs : s ∈ distinctAlternatives types) : s.WellFormed ∧ s.isUnion = false := by
  obtain ⟨t, ht, hs⟩ := List.mem_flatMap.mp (mem_of_mem_eraseDups hs)
  exact wellFormed_of_mem_alternatives (htypes t ht) hs

theorem pairwise_distinct (htypes : ∀ t ∈ types, t.WellFormed) :
    (distinctAlternatives types).Pairwise fun m n => (m == n) = false := by
  refine pairwise_eraseDups.imp_of_mem fun hm hn hne => ?_
  have hmwf := (wellFormed_of_mem_distinct htypes hm).1
  have hnwf := (wellFormed_of_mem_distinct htypes hn).1
  exact beq_eq_false_symm hnwf hmwf hne

/-- What a union of types comes down to. -/
theorem oneOf_cases (types : List Ty) :
    (distinctAlternatives types = [] ∧ oneOf types = null) ∨
      (∃ t, distinctAlternatives types = [t] ∧ oneOf types = t) ∨
      (2 ≤ (distinctAlternatives types).length ∧
        oneOf types = union (distinctAlternatives types)) := by
  unfold oneOf
  rw [← distinctAlternatives]
  rcases distinctAlternatives types with _ | ⟨t, _ | ⟨u, rest⟩⟩
  · exact Or.inl ⟨rfl, rfl⟩
  · exact Or.inr (Or.inl ⟨t, rfl, rfl⟩)
  · exact Or.inr (Or.inr ⟨by simp, rfl⟩)

theorem oneOf_of_two_le (h : 2 ≤ (distinctAlternatives types).length) :
    oneOf types = union (distinctAlternatives types) := by
  rcases oneOf_cases types with ⟨hnone, _⟩ | ⟨m, hone, _⟩ | ⟨_, heq⟩
  · simp [hnone] at h
  · simp [hone] at h
  · exact heq

/-- A union of types has no other parts than those of the types, itself and null. -/
theorem Everywhere.oneOf {P : Ty → Prop} (hnull : P null) (hunion : ∀ ms, P (union ms))
    (htypes : ∀ t ∈ types, t.Everywhere P) : (oneOf types).Everywhere P := by
  have hmem : ∀ s ∈ distinctAlternatives types, s.Everywhere P := by
    intro s hs
    obtain ⟨t, ht, hs⟩ := List.mem_flatMap.mp (mem_of_mem_eraseDups hs)
    cases t with
    | union ms => exact (Everywhere.union_iff.mp (htypes _ ht)).2 s hs
    | _ => exact List.mem_singleton.mp hs ▸ htypes _ ht
  rcases oneOf_cases types with ⟨_, heq⟩ | ⟨t, hsingle, heq⟩ | ⟨_, heq⟩
  · rw [heq]
    exact Everywhere.of_isPrimitive rfl hnull
  · rw [heq]
    exact hmem t (hsingle ▸ List.mem_singleton_self t)
  · rw [heq]
    exact Everywhere.union_iff.mpr ⟨hunion _, hmem⟩

/-- A union of well-formed types is well-formed. -/
theorem wellFormed_oneOf (htypes : ∀ t ∈ types, t.WellFormed) : (oneOf types).WellFormed := by
  have hmem := fun s => wellFormed_of_mem_distinct (s := s) htypes
  rcases oneOf_cases types with ⟨_, heq⟩ | ⟨t, hsingle, heq⟩ | ⟨hlength, heq⟩
  · rw [heq]
    exact .of_isPrimitive rfl
  · rw [heq]
    exact (hmem t (hsingle ▸ List.mem_singleton_self t)).1
  · rw [heq]
    exact WellFormed.union_iff.mpr ⟨hlength, fun m hm => (hmem m hm).2, pairwise_distinct htypes,
      fun m hm => (hmem m hm).1⟩

/-- Types that are no unions and all differ are kept. -/
theorem distinctAlternatives_eq_self (hflat : ∀ m ∈ ms, m.isUnion = false)
    (hdistinct : ms.Pairwise fun m n => (m == n) = false) (hms : ∀ m ∈ ms, m.WellFormed) :
    distinctAlternatives ms = ms := by
  have halternatives : ms.flatMap alternatives = ms := by
    rw [List.flatMap_congr fun m hm => alternatives_eq_singleton (hflat m hm), List.flatMap_singleton']
  unfold distinctAlternatives
  rw [halternatives]
  apply eraseDups_eq_self
  exact hdistinct.imp_of_mem fun hm hn => beq_eq_false_symm (hms _ hm) (hms _ hn)

/-- The members of a well-formed union stay as they are. -/
theorem oneOf_eq_union (h : (union ms).WellFormed) : oneOf ms = union ms := by
  obtain ⟨hlength, hflat, hdistinct, hms⟩ := WellFormed.union_iff.mp h
  have hkept : distinctAlternatives ms = ms := distinctAlternatives_eq_self hflat hdistinct hms
  rw [oneOf_of_two_le (hkept.symm ▸ hlength), hkept]

theorem alternatives_oneOf (hne : ms ≠ []) (hflat : ∀ m ∈ ms, m.isUnion = false)
    (hdistinct : ms.Pairwise fun m n => (m == n) = false) (hms : ∀ m ∈ ms, m.WellFormed) :
    (oneOf ms).alternatives = ms := by
  have hkept : distinctAlternatives ms = ms := distinctAlternatives_eq_self hflat hdistinct hms
  rcases oneOf_cases ms with ⟨hnone, _⟩ | ⟨m, hone, heq⟩ | ⟨_, heq⟩
  · exact absurd (hkept.symm.trans hnone) hne
  · obtain rfl : ms = [m] := hkept.symm.trans hone
    rw [heq, alternatives_eq_singleton (hflat m (List.mem_singleton_self m))]
  · rw [heq, hkept]
    rfl

/-- Adding null leaves a type that has it, and puts null last otherwise. -/
theorem orNull_eq (ht : t.WellFormed) : t.orNull = t ∧ (t = any ∨ null ∈ t.alternatives) ∨
    t.orNull = union (t.alternatives ++ [null]) ∧ null ∉ t.alternatives := by
  by_cases hany : t = any
  · exact Or.inl ⟨by rw [hany]; rfl, Or.inl hany⟩
  by_cases hnull : t = null
  · exact Or.inl ⟨by rw [hnull]; rfl, Or.inr (by simp [hnull, alternatives])⟩
  have horNull : t.orNull = oneOf [t, null] := by
    cases t with
    | null => exact absurd rfl hnull
    | any => exact absurd rfl hany
    | _ => rfl
  have hdistinct : distinctAlternatives [t, null] = (t.alternatives ++ [null]).eraseDups := by
    simp [distinctAlternatives, alternatives]
  by_cases hmem : null ∈ t.alternatives
  · left
    refine ⟨?_, Or.inr hmem⟩
    rw [eraseDups_concat_of_mem (pairwise_alternatives ht) ⟨null, hmem, rfl⟩] at hdistinct
    cases t with
    | union ms =>
      rw [horNull, oneOf_of_two_le (hdistinct ▸ (WellFormed.union_iff.mp ht).1), hdistinct]
      rfl
    | _ => simp [alternatives] at hmem hnull
  · right
    refine ⟨?_, hmem⟩
    have hpairwise : (t.alternatives ++ [null]).Pairwise fun m n => (n == m) = false := by
      refine List.pairwise_append.mpr ⟨pairwise_alternatives ht, List.pairwise_singleton _ _, ?_⟩
      intro m hm n hn
      rw [List.mem_singleton.mp hn]
      apply Bool.eq_false_iff.mpr
      intro heq
      exact hmem (eq_of_primitive_beq rfl heq ▸ hm)
    have hlength : 2 ≤ (t.alternatives ++ [null]).length := by
      have hpositive := List.length_pos_of_ne_nil (alternatives_ne_nil ht)
      rw [List.length_append, List.length_singleton]
      omega
    rw [eraseDups_eq_self hpairwise] at hdistinct
    rw [horNull, oneOf_of_two_le (hdistinct ▸ hlength), hdistinct]

theorem fits_distinct_iff (htypes : ∀ t ∈ types, t.WellFormed) :
    (∀ s ∈ distinctAlternatives types, Fits s c) ↔ ∀ t ∈ types, Fits t c := by
  constructor
  · intro h t ht
    refine (fits_iff_alternatives (htypes t ht)).mpr fun s hs => ?_
    have hflat : s ∈ types.flatMap alternatives := List.mem_flatMap.mpr ⟨t, ht, hs⟩
    obtain ⟨u, hu, hsu⟩ := exists_kept_of_mem hflat
    rcases hsu with rfl | heq
    · exact h s hu
    · have hswf := (wellFormed_of_mem_alternatives (htypes t ht) hs).1
      have huwf := (wellFormed_of_mem_distinct htypes hu).1
      exact (fits_both_of_beq hswf huwf heq).1.trans (h u hu)
  · intro h s hs
    obtain ⟨t, ht, hs⟩ := List.mem_flatMap.mp (mem_of_mem_eraseDups hs)
    exact (fits_iff_alternatives (htypes t ht)).mp (h t ht) s hs

theorem distinctAlternatives_ne_nil (hne : types ≠ []) (htypes : ∀ t ∈ types, t.WellFormed) :
    distinctAlternatives types ≠ [] := by
  obtain ⟨t, ht⟩ := List.exists_mem_of_ne_nil _ hne
  obtain ⟨s, hs⟩ := List.exists_mem_of_ne_nil _ (alternatives_ne_nil (htypes t ht))
  obtain ⟨u, hu, _⟩ := exists_kept_of_mem (List.mem_flatMap.mpr ⟨t, ht, hs⟩)
  exact List.ne_nil_of_mem hu

/-- A union of types fits what all of them fit. -/
theorem oneOf_fits_iff (hne : types ≠ []) (htypes : ∀ t ∈ types, t.WellFormed) :
    Fits (oneOf types) c ↔ ∀ t ∈ types, Fits t c := by
  have hwf := wellFormed_oneOf htypes
  rw [← fits_distinct_iff htypes]
  rcases oneOf_cases types with ⟨hnil, _⟩ | ⟨t, hsingle, heq⟩ | ⟨_, heq⟩
  · exact absurd hnil (distinctAlternatives_ne_nil hne htypes)
  · rw [heq, hsingle, List.forall_mem_singleton]
  · rw [heq] at hwf ⊢
    exact fits_iff_alternatives hwf

theorem fits_oneOf (htypes : ∀ t ∈ types, t.WellFormed) (ht : t ∈ types) : Fits t (oneOf types) :=
  (oneOf_fits_iff (List.ne_nil_of_mem ht) htypes).mp (.refl (wellFormed_oneOf htypes)) t ht

/-! ### What joins are made of

A property of `any` that unions of types inherit is inherited by joins. -/

section Joins

variable {P : Ty → Prop} (hany : P any)
  (honeOf : ∀ {types}, (∀ t ∈ types, P t) → P (oneOf types))
include hany honeOf

theorem either_of_oneOf (ha : P a) (hb : P b) : P (a.either b) := by
  unfold either
  split
  · exact ha
  · split
    · exact hany
    · exact honeOf (forall_mem_pair.mpr ⟨ha, hb⟩)

theorem join_of_oneOf (ha : P a) (hb : P b) : P (a.join b) := by
  unfold join
  split
  · exact hb
  · split
    · exact ha
    · exact either_of_oneOf hany honeOf ha hb

theorem foldl_join_of_oneOf (ht : P t) (htypes : ∀ s ∈ types, P s) : P (types.foldl join t) := by
  induction types generalizing t with
  | nil => exact ht
  | cons s types ih =>
    obtain ⟨hs, htypes⟩ := List.forall_mem_cons.mp htypes
    exact ih (join_of_oneOf hany honeOf ht hs) htypes

end Joins

end Ty

end SchemaInfer
