import SchemaInfer.Proofs.DifferencePlaces

/-!
# Comparing in either direction

`Difference.ofJson` is led by what is expected: it goes through the expected keys, then through those that
are left on the other side, and it looks for each expected member of a set among the actual ones. The two
directions of a comparison still report the same differences, with the sides exchanged, in some order. For
objects, each direction goes once through the keys of both, and what it reports at a key depends on
that key only; for sets, having the same members is being equal up to a permutation.
-/

namespace SchemaInfer

namespace Difference

variable {d : Difference} {keyword : Option String} {key token : String} {e a part : Json}
  {xs ys : List Json} {es as : List (String × Json)} {position : Nat}

/-- The difference as the comparison in the other direction has it. -/
def exchanged (d : Difference) : Difference :=
  { d with expected := d.actual, actual := d.expected }

@[simp] theorem exchanged_missing : (missing token part).exchanged = unexpected token part := rfl

@[simp] theorem exchanged_unexpected : (unexpected token part).exchanged = missing token part := rfl

theorem exchanged_within : (d.within token).exchanged = d.exchanged.within token := by
  obtain ⟨place, expected, actual⟩ := d
  cases place <;> rfl

/-- The differences of the one list are those of the other with the sides exchanged. -/
def Mirrors (ds ds' : List Difference) : Prop :=
  ds.Perm (ds'.map exchanged)

namespace Mirrors

variable {ds₁ ds₂ ds₁' ds₂' : List Difference}

theorem append (h : Mirrors ds₁ ds₁') (h' : Mirrors ds₂ ds₂') :
    Mirrors (ds₁ ++ ds₂) (ds₁' ++ ds₂') := by
  unfold Mirrors
  rw [List.map_append]
  exact List.Perm.append h h'

theorem within (h : Mirrors ds₁ ds₂) :
    Mirrors (ds₁.map (within token)) (ds₂.map (within token)) := by
  have hcommute : exchanged ∘ Difference.within token = Difference.within token ∘ exchanged :=
    funext fun _ => exchanged_within
  rw [Mirrors, List.map_map, hcommute, ← List.map_map]
  exact List.Perm.map _ h

theorem eq_nil_iff (h : Mirrors ds₁ ds₂) : ds₁ = [] ↔ ds₂ = [] := by
  rw [← List.map_eq_nil_iff (f := exchanged) (l := ds₂)]
  constructor
  · rintro rfl
    exact h.nil_eq.symm
  · intro hnil
    rw [Mirrors, hnil] at h
    exact h.eq_nil

theorem changed : Mirrors [changed a e] [changed e a] :=
  .refl _

end Mirrors

/-! ### Arrays as sets -/

/-- Arrays have the same members exactly if one is a permutation of the other, up to equality. -/
theorem sameMembers_iff (hxs : ∀ x ∈ xs, x.DistinctKeys) (hys : ∀ y ∈ ys, y.DistinctKeys) :
    sameMembers xs ys = true ↔
      ∃ zs, zs.Perm ys ∧ List.Forall₂ (fun x z => x.same z = true) xs zs := by
  constructor
  · exact exists_perm_of_sameMembers
  · rintro ⟨zs, hperm, hzs⟩
    exact sameMembers_of_perm hxs hys hperm hzs

theorem sameMembers_symm (hxs : ∀ x ∈ xs, x.DistinctKeys) (hys : ∀ y ∈ ys, y.DistinctKeys)
    (h : sameMembers xs ys = true) : sameMembers ys xs = true := by
  obtain ⟨zs, hperm, hzs⟩ := exists_perm_of_sameMembers h
  have hdistinct : ∀ z ∈ zs, z.DistinctKeys := fun z hz => hys z (hperm.subset hz)
  have hsame : (Json.array zs).same (.array xs) = true :=
    Json.same_symm (Json.DistinctKeys.array_iff.mpr hxs) (Json.DistinctKeys.array_iff.mpr hdistinct)
      (Json.same_array_iff.mpr hzs)
  -- `xs` in the order of `ys` is in step with `ys`
  obtain ⟨ws, hws, hperm'⟩ := List.perm_comp_forall₂ hperm.symm (Json.same_array_iff.mp hsame)
  exact sameMembers_of_perm hys hxs hperm' hws

theorem sameMembers_comm (hxs : ∀ x ∈ xs, x.DistinctKeys) (hys : ∀ y ∈ ys, y.DistinctKeys) :
    sameMembers xs ys = sameMembers ys xs := by
  rw [Bool.eq_iff_iff]
  exact ⟨sameMembers_symm hxs hys, sameMembers_symm hys hxs⟩

/-! ### Arrays as sequences -/

theorem mirrors_beyond {report report' : String → Json → Difference} {items : List Json}
    (h : ∀ token part, (report' token part).exchanged = report token part) :
    Mirrors (beyond report position items) (beyond report' position items) := by
  unfold Mirrors beyond
  rw [List.map_map, Function.comp_def]
  simp only [h]
  exact .refl _

theorem mirrors_ofItems
    (hparts : ∀ x ∈ xs, ∀ y ∈ ys, Mirrors (ofJson none y x) (ofJson none x y)) :
    Mirrors (ofItems position ys xs) (ofItems position xs ys) := by
  induction xs generalizing position ys with
  | nil =>
    cases ys with
    | nil => exact .nil
    | cons y ys => exact mirrors_beyond fun _ _ => exchanged_unexpected
  | cons x xs ih =>
    cases ys with
    | nil => exact mirrors_beyond fun _ _ => exchanged_missing
    | cons y ys =>
      rw [ofItems, ofItems]
      refine .append (hparts x List.mem_cons_self y List.mem_cons_self).within (ih ?_)
      intro x hx y hy
      exact hparts x (List.mem_cons_of_mem _ hx) y (List.mem_cons_of_mem _ hy)

/-! ### Objects -/

/-- The differences of two objects at one key. -/
def atKey (es as : List (String × Json)) (key : String) : List Difference :=
  match es.lookup key, as.lookup key with
  | some e, some a => (ofJson (some key) e a).map (within key)
  | some e, none => [missing key e]
  | none, some a => [unexpected key a]
  | none, none => []

/-- The keys of two objects in the order in which they are compared. -/
def comparedKeys (es as : List (String × Json)) : List String :=
  Entries.keys es ++ Entries.keys (as.filter fun (key, _) => !Entries.hasKey key es)

theorem mem_comparedKeys :
    key ∈ comparedKeys es as ↔ key ∈ Entries.keys es ∨ key ∈ Entries.keys as := by
  rw [comparedKeys, List.mem_append]
  constructor
  · rintro (hkey | hkey)
    · exact Or.inl hkey
    · obtain ⟨entry, hentry, rfl⟩ := List.mem_map.mp hkey
      exact Or.inr (Entries.mem_keys_of_mem (List.mem_of_mem_filter hentry))
  · intro hkey
    by_cases hes : Entries.hasKey key es = true
    · exact Or.inl (Entries.hasKey_iff.mp hes)
    · have hnew : key ∉ Entries.keys es := fun h => hes (Entries.hasKey_iff.mpr h)
      obtain ⟨part, hpart⟩ := Entries.exists_lookup_of_mem_keys (hkey.resolve_left hnew)
      refine Or.inr (Entries.mem_keys_of_mem (List.mem_filter.mpr ⟨Entries.mem_of_lookup hpart, ?_⟩))
      simpa using hes

theorem nodup_comparedKeys (hes : (Entries.keys es).Nodup) (has : (Entries.keys as).Nodup) :
    (comparedKeys es as).Nodup := by
  refine hes.append (has.sublist (List.filter_sublist.map _)) ?_
  intro key hkey hkey'
  obtain ⟨⟨_, part⟩, hmem, rfl⟩ := List.mem_map.mp hkey'
  exact Entries.lookup_eq_none_iff.mp (lookup_of_unexpected has hmem).1 hkey

/-- Both directions compare the same keys, each once. -/
theorem comparedKeys_perm (hes : (Entries.keys es).Nodup) (has : (Entries.keys as).Nodup) :
    (comparedKeys as es).Perm (comparedKeys es as) := by
  refine (List.perm_ext_iff_of_nodup (nodup_comparedKeys has hes) (nodup_comparedKeys hes has)).mpr ?_
  intro key
  rw [mem_comparedKeys, mem_comparedKeys, or_comm]

theorem ofEntries_eq_flatMap {rest : List (String × Json)}
    (hrest : ∀ key e, (key, e) ∈ rest → es.lookup key = some e) :
    ofEntries rest as = (Entries.keys rest).flatMap (atKey es as) := by
  induction rest with
  | nil => rfl
  | cons entry rest ih =>
    obtain ⟨key, e⟩ := entry
    obtain ⟨he, hrest⟩ := Entries.forall_mem_cons_iff.mp hrest
    change ofEntries ((key, e) :: rest) as = atKey es as key ++ (Entries.keys rest).flatMap _
    rw [ofEntries, ih hrest, atKey, he]
    cases as.lookup key <;> rfl

theorem unexpected_eq_flatMap {rest : List (String × Json)}
    (hrest : ∀ key part, (key, part) ∈ rest → es.lookup key = none ∧ as.lookup key = some part) :
    (rest.map fun (key, part) => unexpected key part) =
      (Entries.keys rest).flatMap (atKey es as) := by
  induction rest with
  | nil => rfl
  | cons entry rest ih =>
    obtain ⟨key, part⟩ := entry
    obtain ⟨⟨hnone, hsome⟩, hrest⟩ := Entries.forall_mem_cons_iff.mp hrest
    change unexpected key part :: _ = atKey es as key ++ (Entries.keys rest).flatMap _
    rw [ih hrest, atKey, hnone, hsome]
    rfl

theorem ofJson_object (hes : (Entries.keys es).Nodup) (has : (Entries.keys as).Nodup) :
    ofJson keyword (.object es) (.object as) = (comparedKeys es as).flatMap (atKey es as) := by
  rw [ofJson, comparedKeys, List.flatMap_append,
    ofEntries_eq_flatMap fun key e hmem => (Entries.lookup_eq_some_iff_mem hes).mpr hmem,
    unexpected_eq_flatMap fun key part => lookup_of_unexpected has]

theorem mirrors_atKey
    (hparts : ∀ e a, es.lookup key = some e → as.lookup key = some a →
      Mirrors (ofJson (some key) a e) (ofJson (some key) e a)) :
    Mirrors (atKey as es key) (atKey es as key) := by
  unfold atKey
  cases he : es.lookup key with
  | none =>
    cases as.lookup key with
    | none => exact .nil
    | some a => exact .refl _
  | some e =>
    cases ha : as.lookup key with
    | none => exact .refl _
    | some a => exact (hparts e a he ha).within

theorem mirrors_object (hes : (Entries.keys es).Nodup) (has : (Entries.keys as).Nodup)
    (hparts : ∀ key e a, es.lookup key = some e → as.lookup key = some a →
      Mirrors (ofJson (some key) a e) (ofJson (some key) e a)) :
    Mirrors (ofJson keyword (.object as) (.object es)) (ofJson keyword (.object es) (.object as)) := by
  rw [ofJson_object hes has, ofJson_object has hes, Mirrors, List.map_flatMap]
  have hkeys : ((comparedKeys as es).flatMap (atKey as es)).Perm
      ((comparedKeys es as).flatMap (atKey as es)) := (comparedKeys_perm hes has).flatMap_right _
  exact hkeys.trans (List.Perm.flatMap_left _ fun key _ => mirrors_atKey (hparts key))

/-! ### Values -/

theorem mirrors_of_same (he : e.DistinctKeys) (ha : a.DistinctKeys) :
    Mirrors (if a.same e then [] else [changed a e]) (if e.same a then [] else [changed e a]) := by
  have hcomm : a.same e = e.same a := by
    rw [Bool.eq_iff_iff]
    exact ⟨Json.same_symm ha he, Json.same_symm he ha⟩
  rw [hcomm]
  split
  · exact .nil
  · exact .changed

theorem mirrors_array (hxs : ∀ x ∈ xs, x.DistinctKeys) (hys : ∀ y ∈ ys, y.DistinctKeys)
    (hparts : ∀ x ∈ xs, ∀ y ∈ ys, Mirrors (ofJson none y x) (ofJson none x y)) :
    Mirrors (ofJson keyword (.array ys) (.array xs)) (ofJson keyword (.array xs) (.array ys)) := by
  rw [ofJson, ofJson, sameMembers_comm hxs hys]
  split
  · split
    · exact .nil
    · exact .changed
  · exact mirrors_ofItems hparts

theorem mirrors_ofJson (he : e.DistinctKeys) (ha : a.DistinctKeys) :
    Mirrors (ofJson keyword a e) (ofJson keyword e a) := by
  induction e generalizing keyword a with
  | null | bool _ | int _ | float _ | string _ => cases a <;> exact mirrors_of_same he ha
  | array xs ih =>
    cases a with
    | array ys =>
      have hxs := Json.DistinctKeys.array_iff.mp he
      have hys := Json.DistinctKeys.array_iff.mp ha
      exact mirrors_array hxs hys fun x hx y hy => ih x hx (hxs x hx) (hys y hy)
    | _ => exact mirrors_of_same he ha
  | object es ih =>
    cases a with
    | object as =>
      obtain ⟨hes, hesparts⟩ := Json.DistinctKeys.object_iff.mp he
      obtain ⟨has, hasparts⟩ := Json.DistinctKeys.object_iff.mp ha
      refine mirrors_object hes has fun key e a he ha => ?_
      exact ih key e (Entries.mem_of_lookup he) (hesparts.lookup he) (hasparts.lookup ha)
    | _ => exact mirrors_of_same he ha

/-- **Comparison is symmetric.** The differences of two values are, in some order, those of the comparison
in the other direction with the sides exchanged; in particular one direction reports none exactly if the
other does. Arrays have the same members exactly if one is a permutation of the other up to equality. -/
theorem ofJson_perm_exchanged (e a : Json) (he : e.DistinctKeys) (ha : a.DistinctKeys) :
    (ofJson none a e).Perm ((ofJson none e a).map exchanged) ∧
      (ofJson none a e = [] ↔ ofJson none e a = []) ∧
      ∀ xs ys : List Json, (∀ x ∈ xs, x.DistinctKeys) → (∀ y ∈ ys, y.DistinctKeys) →
        (sameMembers xs ys = true ↔
          ∃ zs, zs.Perm ys ∧ List.Forall₂ (fun x z => x.same z = true) xs zs) := by
  have hmirrors : Mirrors (ofJson none a e) (ofJson none e a) := mirrors_ofJson he ha
  exact ⟨hmirrors, hmirrors.eq_nil_iff, fun xs ys => sameMembers_iff⟩

/-- A set in which another member is repeated, an item beyond the end of the other array, keys that only
one side has, and a set of objects whose entries are in another order. -/
theorem ofJson_perm_exchanged_of_sets :
    let e := Json.object
      [("required", .array [.string "a", .string "b", .string "a"]),
        ("prefixItems", .array [.int 1, .int 2]), ("title", .null)]
    let a := Json.object
      [("prefixItems", .array [.int 1]), ("enum", .array []),
        ("required", .array [.string "b", .string "b", .string "a"])]
    (e.DistinctKeys ∧ a.DistinctKeys) ∧
      ((ofJson none e a).map fun d => d.place.text) =
        ["/required", "/prefixItems/1", "/title", "/enum"] ∧
      ((ofJson none a e).map fun d => d.place.text) =
        ["/prefixItems/1", "/enum", "/required", "/title"] ∧
      (ofJson none a e).Perm ((ofJson none e a).map exchanged) ∧
      sameMembers [.object [("x", .int 1), ("y", .null)], .int 3]
        [.int 3, .object [("y", .null), ("x", .int 1)]] = true := by
  intro e a
  have he : e.DistinctKeys := by decide
  have ha : a.DistinctKeys := by decide
  obtain ⟨hperm, _, hmembers⟩ := ofJson_perm_exchanged e a he ha
  refine ⟨⟨he, ha⟩, by decide +kernel, by decide +kernel, hperm, ?_⟩
  refine (hmembers _ _ (by decide) (by decide)).mpr ⟨_, .swap _ _ _, ?_⟩
  exact .cons (by decide) (.cons (by decide) .nil)

end Difference

end SchemaInfer
