import SchemaInfer.Schema.Difference
import SchemaInfer.Proofs.JsonEquality
import Mathlib.Data.List.Forall2
import Mathlib.Data.List.Perm.Basic

/-!
# Documents without a difference

Where `Difference.ofJson` reports nothing, two objects have the same keys and no difference at any of
them. Under the keywords whose arrays are sets, the items on one side are those of the other in some
order, each equal to its partner as it stands: the comparison of such an array does not go into its
items, so in them the order of arrays counts again. Equal values have no difference.
-/

namespace SchemaInfer.Difference

variable {keyword : Option String} {key : String} {e a : Json} {es as : List (String × Json)}
  {xs ys zs : List Json}

/-! ### Objects -/

theorem ofEntries_eq_nil_iff : ofEntries es as = [] ↔
    ∀ key e, (key, e) ∈ es → ∃ a, as.lookup key = some a ∧ ofJson (some key) e a = [] := by
  induction es with
  | nil => simp [ofEntries]
  | cons entry es ih =>
    obtain ⟨key, e⟩ := entry
    rw [ofEntries, List.append_eq_nil_iff, ih, Entries.forall_mem_cons_iff]
    apply and_congr_left'
    cases as.lookup key with
    | none => simp
    | some a => simp

theorem ofJson_object_eq_nil_iff : ofJson keyword (.object es) (.object as) = [] ↔
    (∀ key e, (key, e) ∈ es → ∃ a, as.lookup key = some a ∧ ofJson (some key) e a = []) ∧
      ∀ key ∈ Entries.keys as, key ∈ Entries.keys es := by
  rw [ofJson, List.append_eq_nil_iff, ofEntries_eq_nil_iff, List.map_eq_nil_iff,
    List.filter_eq_nil_iff, Entries.keys, List.forall_mem_map]
  -- What remains is that no entry is kept by the filter for the unexpected ones.
  refine and_congr_right' (forall₂_congr fun entry _ => ?_)
  rw [← Entries.hasKey_iff]
  simp

theorem exists_of_object_actual (h : ofJson keyword e (.object as) = []) : ∃ es, e = .object es := by
  cases e with
  | object es => exact ⟨es, rfl⟩
  | _ => simp [ofJson, Json.same] at h

theorem agree_of_no_difference (h : ofJson keyword (.object es) (.object as) = []) :
    Entries.Agree (fun key e a => ofJson (some key) e a = []) es as := by
  obtain ⟨hes, hkeys⟩ := ofJson_object_eq_nil_iff.mp h
  exact .of_mem hes hkeys

theorem ofJson_object_eq_nil_iff_agree (hkeys : (Entries.keys es).Nodup) :
    ofJson keyword (.object es) (.object as) = [] ↔
      Entries.Agree (fun key e a => ofJson (some key) e a = []) es as := by
  rw [ofJson_object_eq_nil_iff, Entries.agree_iff hkeys]

/-! ### Texts and truth values -/

theorem eq_of_string_actual {s : String} (h : ofJson keyword e (.string s) = []) : e = .string s := by
  have hsame : e.same (.string s) = true := by
    by_contra hne
    cases e <;> simp [ofJson, hne] at h
  exact Json.eq_of_same_string hsame

theorem eq_of_bool_actual {b : Bool} (h : ofJson keyword e (.bool b) = []) : e = .bool b := by
  have hsame : e.same (.bool b) = true := by
    by_contra hne
    cases e <;> simp [ofJson, hne] at h
  exact Json.eq_of_same_bool hsame

/-! ### Arrays as sets -/

theorem ofJson_unordered_eq_nil_iff (hkey : key ∈ unorderedKeywords) :
    ofJson (some key) (.array xs) (.array ys) = [] ↔ sameMembers xs ys = true := by
  simp [ofJson, hkey]

theorem exists_of_unordered_actual (hkey : key ∈ unorderedKeywords)
    (h : ofJson (some key) e (.array ys) = []) :
    ∃ xs, e = .array xs ∧ sameMembers xs ys = true := by
  cases e with
  | array xs => exact ⟨xs, rfl, (ofJson_unordered_eq_nil_iff hkey).mp h⟩
  | _ => simp [ofJson, Json.same] at h

/-- Arrays with the same members can be brought into step. -/
theorem exists_perm_of_sameMembers (h : sameMembers xs ys = true) :
    ∃ zs, zs.Perm ys ∧ List.Forall₂ (fun x z => x.same z = true) xs zs := by
  induction xs generalizing ys with
  | nil =>
    obtain rfl := List.isEmpty_iff.mp h
    exact ⟨[], .refl _, .nil⟩
  | cons x xs ih =>
    rw [sameMembers, Bool.and_eq_true, List.any_eq_true] at h
    obtain ⟨⟨y, hy, hxy⟩, hrest⟩ := h
    obtain ⟨z, before, after, _, hxz, rfl, herase⟩ := List.exists_of_eraseP hy hxy
    rw [herase] at hrest
    obtain ⟨zs, hperm, hzs⟩ := ih hrest
    refine ⟨z :: zs, ?_, .cons hxz hzs⟩
    exact (hperm.cons z).trans List.perm_middle.symm

/-- Frees one item on the right: the one on the left that it belonged to takes `z` instead. -/
theorem exists_forall₂_instead {α β : Type} {R : α → β → Prop} {xs : List α} {zs : List β} {y z : β}
    (h : List.Forall₂ R xs zs) (hy : y ∈ z :: zs) (hinstead : ∀ x ∈ xs, R x y → R x z) :
    ∃ zs', (y :: zs').Perm (z :: zs) ∧ List.Forall₂ R xs zs' := by
  induction h with
  | nil =>
    obtain rfl := List.mem_singleton.mp hy
    exact ⟨[], .refl _, .nil⟩
  | @cons x w xs zs hxw hzs ih =>
    obtain ⟨hx, hxs⟩ := List.forall_mem_cons.mp hinstead
    rcases List.mem_cons.mp hy with rfl | hy
    · exact ⟨w :: zs, .refl _, .cons hxw hzs⟩
    · rcases List.mem_cons.mp hy with rfl | hy
      · exact ⟨z :: zs, .swap _ _ _, .cons (hx hxw) hzs⟩
      · obtain ⟨zs', hperm, hzs'⟩ := ih (List.mem_cons_of_mem _ hy) hxs
        refine ⟨w :: zs', ?_, .cons hxw hzs'⟩
        exact (List.Perm.swap _ _ _).trans ((hperm.cons w).trans (.swap _ _ _))

/-- Arrays that can be brought into step have the same members. Each item takes the first that it is
equal to, which need not be its partner; but what it takes is equal to its partner. -/
theorem sameMembers_of_perm (hxs : ∀ x ∈ xs, x.DistinctKeys) (hys : ∀ y ∈ ys, y.DistinctKeys)
    (hperm : zs.Perm ys) (h : List.Forall₂ (fun x z => x.same z = true) xs zs) :
    sameMembers xs ys = true := by
  induction xs generalizing ys zs with
  | nil =>
    cases h
    obtain rfl := hperm.nil_eq
    rfl
  | cons x xs ih =>
    obtain _ | @⟨_, z, _, zs, hxz, hzs⟩ := h
    obtain ⟨hx, hxs⟩ := List.forall_mem_cons.mp hxs
    have hz : z ∈ ys := hperm.subset List.mem_cons_self
    rw [sameMembers, Bool.and_eq_true, List.any_eq_true]
    refine ⟨⟨z, hz, hxz⟩, ?_⟩
    obtain ⟨y, before, after, _, hxy, rfl, herase⟩ := List.exists_of_eraseP hz hxz
    have hy := hys y (List.mem_append_right _ List.mem_cons_self)
    have hinstead : ∀ w ∈ xs, w.same y = true → w.same z = true := by
      intro w _ hwy
      exact Json.same_trans (Json.same_trans hwy (Json.same_symm hx hy hxy)) hxz
    have hmem : y ∈ z :: zs := hperm.symm.subset (List.mem_append_right _ List.mem_cons_self)
    obtain ⟨zs', hperm', hzs'⟩ := exists_forall₂_instead hzs hmem hinstead
    have hrest : zs'.Perm (before ++ after) :=
      ((hperm'.trans hperm).trans List.perm_middle).cons_inv
    rw [herase]
    refine ih hxs (fun w hw => hys w ?_) hrest hzs'
    rcases List.mem_append.mp hw with hw | hw
    · exact List.mem_append_left _ hw
    · exact List.mem_append_right _ (List.mem_cons_of_mem _ hw)

/-! ### Equal values -/

theorem sameMembers_of_forall₂ (h : List.Forall₂ (fun x y => x.same y = true) xs ys) :
    sameMembers xs ys = true := by
  induction h with
  | nil => rfl
  | cons hfirst _ ih => simp [sameMembers, hfirst, ih]

theorem ofItems_eq_nil_of_forall₂ {position : Nat}
    (h : List.Forall₂ (fun x y => ofJson none x y = []) xs ys) : ofItems position xs ys = [] := by
  induction h generalizing position with
  | nil => rfl
  | cons hfirst _ ih => simp [ofItems, hfirst, ih]

theorem ofJson_eq_nil_of_same (he : e.DistinctKeys) (h : e.same a = true) :
    ofJson keyword e a = [] := by
  induction e generalizing keyword a with
  | null | bool _ | int _ | float _ | string _ => simp [ofJson, h]
  | array xs ih =>
    obtain ⟨ys, rfl, hitems⟩ := Json.exists_of_array_same h
    rw [ofJson, if_pos (sameMembers_of_forall₂ hitems)]
    split
    · rfl
    · apply ofItems_eq_nil_of_forall₂
      have hxs := Json.DistinctKeys.array_iff.mp he
      have hboth := (List.forall₂_and_left _ _).mpr ⟨fun x hx => hx, hitems⟩
      exact hboth.imp fun x y hxy => ih x hxy.1 (hxs x hxy.1) hxy.2
  | object es ih =>
    obtain ⟨hkeys, hentries⟩ := Json.DistinctKeys.object_iff.mp he
    obtain ⟨as, rfl, _, hes⟩ := Json.exists_of_object_same h
    refine ofJson_object_eq_nil_iff.mpr ⟨fun key e hmem => ?_, fun key hkey => ?_⟩
    · obtain ⟨a, ha, hsame⟩ := hes key e hmem
      exact ⟨a, ha, ih key e hmem (hentries key e hmem) hsame⟩
    · exact (Json.mem_keys_iff_of_same hkeys h key).mpr hkey

end SchemaInfer.Difference
