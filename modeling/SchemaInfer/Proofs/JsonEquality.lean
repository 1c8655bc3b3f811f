import SchemaInfer.Json.Basic
import SchemaInfer.Proofs.Equality

/-!
# Equality of JSON values is an equivalence

`Json.same` does not look at the order of the entries of an object, and it looks from the left to the
right only. On values without repeated keys that is an equivalence, by the argument that also serves
types: equally many entries on both sides, each on the left with its partner on the right, leave nothing
over. Values that are read from a text have no repeated keys.
-/

namespace SchemaInfer

namespace Json

/-! ### Induction and distinct keys -/

/-- Induction on a value with a hypothesis for each item and each entry. -/
@[elab_as_elim, induction_eliminator]
theorem induction {motive : Json → Prop} (null : motive null) (bool : ∀ b, motive (bool b))
    (int : ∀ n, motive (int n)) (float : ∀ x, motive (float x)) (string : ∀ s, motive (string s))
    (array : ∀ items, (∀ item ∈ items, motive item) → motive (array items))
    (object : ∀ entries, (∀ key value, (key, value) ∈ entries → motive value) →
      motive (object entries)) :
    ∀ v, motive v
  | .null => null
  | .bool b => bool b
  | .int n => int n
  | .float x => float x
  | .string s => string s
  | .array items => array items fun item _ =>
    induction null bool int float string array object item
  | .object entries => object entries fun _ value _ =>
    induction null bool int float string array object value
termination_by v => sizeOf v
decreasing_by
  · exact sizeOf_lt_of_item ‹_›
  · exact sizeOf_lt_of_entry ‹_›

mutual

/-- Tests that no object inside the value repeats a key. -/
def hasDistinctKeys : Json → Bool
  | array items => itemsHaveDistinctKeys items
  | object entries => decide (Entries.keys entries).Nodup && entriesHaveDistinctKeys entries
  | null | bool _ | int _ | float _ | string _ => true

def itemsHaveDistinctKeys : List Json → Bool
  | [] => true
  | item :: items => item.hasDistinctKeys && itemsHaveDistinctKeys items

def entriesHaveDistinctKeys : List (String × Json) → Bool
  | [] => true
  | (_, value) :: entries => value.hasDistinctKeys && entriesHaveDistinctKeys entries

end

/-- No object inside the value repeats a key. -/
def DistinctKeys (v : Json) : Prop :=
  v.hasDistinctKeys = true

instance : DecidablePred DistinctKeys :=
  fun v => inferInstanceAs (Decidable (v.hasDistinctKeys = true))

namespace DistinctKeys

theorem array_iff {items : List Json} :
    (array items).DistinctKeys ↔ ∀ item ∈ items, item.DistinctKeys := by
  change itemsHaveDistinctKeys items = true ↔ _
  induction items with
  | nil => simp [itemsHaveDistinctKeys]
  | cons item items ih =>
    rw [itemsHaveDistinctKeys, Bool.and_eq_true, ih, List.forall_mem_cons]
    rfl

theorem object_iff {entries : List (String × Json)} : (object entries).DistinctKeys ↔
    (Entries.keys entries).Nodup ∧ Entries.All DistinctKeys entries := by
  have hentries : entriesHaveDistinctKeys entries = true ↔ Entries.All DistinctKeys entries := by
    induction entries with
    | nil => simp [entriesHaveDistinctKeys, Entries.All.nil]
    | cons entry entries ih =>
      obtain ⟨key, value⟩ := entry
      rw [entriesHaveDistinctKeys, Bool.and_eq_true, ih, Entries.All.cons_iff]
      rfl
  change (decide (Entries.keys entries).Nodup && entriesHaveDistinctKeys entries) = true ↔ _
  rw [Bool.and_eq_true, decide_eq_true_eq, hentries]

end DistinctKeys

theorem collapseItems_eq_map (items : List Json) : collapseItems items = items.map collapse := by
  induction items with
  | nil => rfl
  | cons item items ih => rw [collapseItems, ih, List.map_cons]

theorem mem_collapseEntries {key : String} {value : Json} {entries : List (String × Json)}
    (h : (key, value) ∈ collapseEntries entries) :
    ∃ w, (key, w) ∈ entries ∧ value = w.collapse := by
  induction entries with
  | nil => cases h
  | cons entry entries ih =>
    obtain ⟨k, w⟩ := entry
    rw [collapseEntries] at h
    rcases List.mem_cons.mp h with heq | hmem
    · obtain ⟨rfl, rfl⟩ := Prod.mk.inj heq
      exact ⟨w, List.mem_cons_self, rfl⟩
    · obtain ⟨w, hw, heq⟩ := ih hmem
      exact ⟨w, List.mem_cons_of_mem _ hw, heq⟩

/-- What is read from a text repeats no key once the keys that the text repeats are collapsed. -/
theorem distinctKeys_collapse (v : Json) : v.collapse.DistinctKeys := by
  induction v with
  | null | bool _ | int _ | float _ | string _ => rfl
  | array items ih =>
    rw [collapse, DistinctKeys.array_iff, collapseItems_eq_map]
    exact List.forall_mem_map.mpr ih
  | object entries ih =>
    rw [collapse, DistinctKeys.object_iff]
    refine ⟨Entries.nodup_keys_ofList, .ofList ?_⟩
    intro key value hmem
    obtain ⟨w, hw, rfl⟩ := mem_collapseEntries hmem
    exact ih key w hw

/-! ### What equality says -/

variable {a b c : Json} {as bs : List Json} {es fs : List (String × Json)}

theorem same_array_iff : (array as).same (array bs) = true ↔
    List.Forall₂ (fun a b => a.same b = true) as bs := by
  change sameItems as bs = true ↔ _
  induction as generalizing bs with
  | nil =>
    cases bs with
    | nil => simp [sameItems]
    | cons b bs => simp [sameItems]
  | cons a as ih =>
    cases bs with
    | nil => simp [sameItems]
    | cons b bs => rw [sameItems, Bool.and_eq_true, ih, List.forall₂_cons]

theorem same_object_iff : (object es).same (object fs) = true ↔ es.length = fs.length ∧
    ∀ key a, (key, a) ∈ es → ∃ b, fs.lookup key = some b ∧ a.same b = true := by
  have hentries : sameEntries es fs = true ↔
      ∀ key a, (key, a) ∈ es → ∃ b, fs.lookup key = some b ∧ a.same b = true := by
    induction es with
    | nil => simp [sameEntries]
    | cons entry es ih =>
      obtain ⟨key, a⟩ := entry
      rw [sameEntries, Bool.and_eq_true, ih, Entries.forall_mem_cons_iff]
      apply and_congr_left'
      cases fs.lookup key with
      | none => simp
      | some b => simp
  change (es.length == fs.length && sameEntries es fs) = true ↔ _
  rw [Bool.and_eq_true, beq_iff_eq, hentries]

theorem exists_of_array_same (h : (array as).same b = true) :
    ∃ bs, b = array bs ∧ List.Forall₂ (fun a b => a.same b = true) as bs := by
  cases b with
  | array bs => exact ⟨bs, rfl, same_array_iff.mp h⟩
  | _ => cases h

theorem exists_of_object_same (h : (object es).same b = true) :
    ∃ fs, b = object fs ∧ es.length = fs.length ∧
      ∀ key a, (key, a) ∈ es → ∃ b, fs.lookup key = some b ∧ a.same b = true := by
  cases b with
  | object fs => exact ⟨fs, rfl, same_object_iff.mp h⟩
  | _ => cases h

theorem eq_of_same_string {s : String} (h : a.same (string s) = true) : a = string s := by
  cases a with
  | string s' => rw [beq_iff_eq.mp h]
  | _ => cases h

theorem eq_of_same_bool {x : Bool} (h : a.same (bool x) = true) : a = bool x := by
  cases a with
  | bool y => rw [beq_iff_eq.mp h]
  | _ => cases h

/-- The entries of equal objects have the same keys, though equality looks for those of the left on the
right only. -/
theorem mem_keys_iff_of_same (hes : (Entries.keys es).Nodup)
    (h : (object es).same (object fs) = true) (key : String) :
    key ∈ Entries.keys es ↔ key ∈ Entries.keys fs := by
  obtain ⟨hlength, hes_fs⟩ := same_object_iff.mp h
  constructor
  · intro hkey
    obtain ⟨a, ha⟩ := Entries.exists_lookup_of_mem_keys hkey
    obtain ⟨b, hb, _⟩ := hes_fs key a (Entries.mem_of_lookup ha)
    exact Entries.mem_keys_of_mem (Entries.mem_of_lookup hb)
  · intro hkey
    obtain ⟨⟨_, b⟩, hb, rfl⟩ := List.mem_map.mp hkey
    have hdistinct : es.Pairwise fun x x' => ∀ y ∈ fs, x.1 = y.1 → ¬ x'.1 = y.1 :=
      (List.pairwise_map.mp hes).imp fun hne _ _ hx hx' => hne (hx.trans hx'.symm)
    have hpartner : ∀ x ∈ es, ∃ y ∈ fs, x.1 = y.1 := by
      rintro ⟨k, a⟩ ha
      obtain ⟨b, hb, _⟩ := hes_fs k a ha
      exact ⟨(k, b), Entries.mem_of_lookup hb, rfl⟩
    obtain ⟨⟨_, a⟩, ha, rfl⟩ :=
      exists_partner_of_length_le hdistinct hpartner (Nat.le_of_eq hlength.symm) _ hb
    exact Entries.mem_keys_of_mem ha

theorem same_object_iff_agree (hes : (Entries.keys es).Nodup) (hfs : (Entries.keys fs).Nodup) :
    (object es).same (object fs) = true ↔ Entries.Agree (fun _ a b => a.same b = true) es fs := by
  constructor
  · intro h
    exact .of_mem (same_object_iff.mp h).2 fun key => (mem_keys_iff_of_same hes h key).mpr
  · intro h
    exact same_object_iff.mpr ⟨h.length_eq hes hfs, ((Entries.agree_iff hes).mp h).1⟩

end Json

/-! ### Reflexivity, symmetry, transitivity -/

namespace Binary64

variable {x y z : Binary64}

theorem sameNumber_iff :
    x.sameNumber y = true ↔ x = y ∨ (x.isZero = true ∧ y.isZero = true) := by
  simp [sameNumber]

theorem sameNumber_symm (h : x.sameNumber y = true) : y.sameNumber x = true := by
  rw [sameNumber_iff] at h ⊢
  rcases h with rfl | ⟨hx, hy⟩
  · exact Or.inl rfl
  · exact Or.inr ⟨hy, hx⟩

theorem sameNumber_trans (hxy : x.sameNumber y = true) (hyz : y.sameNumber z = true) :
    x.sameNumber z = true := by
  rw [sameNumber_iff] at hxy hyz ⊢
  rcases hxy with rfl | ⟨hx, hy⟩
  · exact hyz
  · rcases hyz with rfl | ⟨_, hz⟩
    · exact Or.inr ⟨hx, hy⟩
    · exact Or.inr ⟨hx, hz⟩

end Binary64

namespace Json

variable {a b c : Json}

theorem same_refl (ha : a.DistinctKeys) : a.same a = true := by
  induction a with
  | null => rfl
  | bool b => exact beq_self_eq_true b
  | int n => exact beq_self_eq_true n
  | float x => exact Binary64.sameNumber_iff.mpr (Or.inl rfl)
  | string s => exact beq_self_eq_true s
  | array items ih =>
    have hitems := DistinctKeys.array_iff.mp ha
    exact same_array_iff.mpr (List.forall₂_same.mpr fun item hmem => ih item hmem (hitems item hmem))
  | object entries ih =>
    obtain ⟨hkeys, hentries⟩ := DistinctKeys.object_iff.mp ha
    refine same_object_iff.mpr ⟨rfl, fun key value hmem => ⟨value, ?_, ?_⟩⟩
    · exact (Entries.lookup_eq_some_iff_mem hkeys).mpr hmem
    · exact ih key value hmem (hentries key value hmem)

theorem same_trans (hab : a.same b = true) (hbc : b.same c = true) : a.same c = true := by
  induction a generalizing b c with
  | null =>
    cases b with
    | null => exact hbc
    | _ => cases hab
  | bool x =>
    cases b with
    | bool y => exact beq_iff_eq.mp hab ▸ hbc
    | _ => cases hab
  | int m =>
    cases b with
    | int n => exact beq_iff_eq.mp hab ▸ hbc
    | _ => cases hab
  | float x =>
    cases b with
    | float y =>
      cases c with
      | float z => exact Binary64.sameNumber_trans hab hbc
      | _ => cases hbc
    | _ => cases hab
  | string s =>
    cases b with
    | string s' => exact beq_iff_eq.mp hab ▸ hbc
    | _ => cases hab
  | array as ih =>
    obtain ⟨bs, rfl, has⟩ := exists_of_array_same hab
    obtain ⟨cs, rfl, hbs⟩ := exists_of_array_same hbc
    refine same_array_iff.mpr ?_
    clear hab hbc
    induction has generalizing cs with
    | nil => exact hbs
    | cons hfirst _ ihrest =>
      obtain _ | ⟨hfirst', hrest⟩ := hbs
      refine .cons (ih _ List.mem_cons_self hfirst hfirst') ?_
      exact ihrest (fun item hmem => ih item (List.mem_cons_of_mem _ hmem)) _ hrest
  | object es ih =>
    obtain ⟨fs, rfl, hlength₁, hes⟩ := exists_of_object_same hab
    obtain ⟨gs, rfl, hlength₂, hfs⟩ := exists_of_object_same hbc
    refine same_object_iff.mpr ⟨hlength₁.trans hlength₂, fun key a ha => ?_⟩
    obtain ⟨b, hb, hab⟩ := hes key a ha
    obtain ⟨c, hc, hbc⟩ := hfs key b (Entries.mem_of_lookup hb)
    exact ⟨c, hc, ih key a ha hab hbc⟩

theorem same_symm (ha : a.DistinctKeys) (hb : b.DistinctKeys) (hab : a.same b = true) :
    b.same a = true := by
  induction a generalizing b with
  | null =>
    cases b with
    | null => rfl
    | _ => cases hab
  | bool x =>
    cases b with
    | bool y => exact beq_iff_eq.mpr (beq_iff_eq.mp hab).symm
    | _ => cases hab
  | int m =>
    cases b with
    | int n => exact beq_iff_eq.mpr (beq_iff_eq.mp hab).symm
    | _ => cases hab
  | float x =>
    cases b with
    | float y => exact Binary64.sameNumber_symm hab
    | _ => cases hab
  | string s =>
    cases b with
    | string s' => exact beq_iff_eq.mpr (beq_iff_eq.mp hab).symm
    | _ => cases hab
  | array as ih =>
    obtain ⟨bs, rfl, hitems⟩ := exists_of_array_same hab
    have has := DistinctKeys.array_iff.mp ha
    have hbs := DistinctKeys.array_iff.mp hb
    refine same_array_iff.mpr ?_
    clear ha hb hab
    induction hitems with
    | nil => exact .nil
    | cons hfirst _ ihrest =>
      obtain ⟨ha, has⟩ := List.forall_mem_cons.mp has
      obtain ⟨hb, hbs⟩ := List.forall_mem_cons.mp hbs
      refine .cons (ih _ List.mem_cons_self ha hb hfirst) ?_
      exact ihrest (fun item hmem => ih item (List.mem_cons_of_mem _ hmem)) has hbs
  | object es ih =>
    obtain ⟨fs, rfl, hlength, hes_fs⟩ := exists_of_object_same hab
    obtain ⟨hes, hesvalues⟩ := DistinctKeys.object_iff.mp ha
    obtain ⟨hfs, hfsvalues⟩ := DistinctKeys.object_iff.mp hb
    refine same_object_iff.mpr ⟨hlength.symm, fun key b hbmem => ?_⟩
    have hkey := (mem_keys_iff_of_same hes hab key).mpr (Entries.mem_keys_of_mem hbmem)
    obtain ⟨a, ha⟩ := Entries.exists_lookup_of_mem_keys hkey
    have hamem := Entries.mem_of_lookup ha
    obtain ⟨b', hb', hsame⟩ := hes_fs key a hamem
    obtain rfl : b = b' := Entries.eq_of_mem hfs hbmem (Entries.mem_of_lookup hb')
    exact ⟨a, ha, ih key a hamem (hesvalues key a hamem) (hfsvalues key b hbmem) hsame⟩

end Json

end SchemaInfer
