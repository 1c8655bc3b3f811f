import SchemaInfer.Entries
import Mathlib.Data.List.Nodup

/-!
# Association lists as finite maps

A list of entries whose keys all differ is a finite map: look-up is membership, and `Entries.ofList`
leaves it as it is. `Entries.insert` and `Entries.ofList` bring in no other entries than those they
are given.
-/

namespace SchemaInfer.Entries

variable {α : Type} {key : String} {value : α} {entry : String × α} {entries : List (String × α)}

theorem mem_keys_of_mem (h : (key, value) ∈ entries) : key ∈ keys entries :=
  List.mem_map.mpr ⟨(key, value), h, rfl⟩

theorem forall_mem_cons_iff {P : String → α → Prop} :
    (∀ k v, (k, v) ∈ (key, value) :: entries → P k v) ↔
      P key value ∧ ∀ k v, (k, v) ∈ entries → P k v := by
  constructor
  · intro h
    exact ⟨h key value List.mem_cons_self, fun k v hmem => h k v (List.mem_cons_of_mem _ hmem)⟩
  · rintro ⟨hhead, hrest⟩ k v hmem
    rcases List.mem_cons.mp hmem with heq | hmem
    · obtain ⟨rfl, rfl⟩ := Prod.mk.inj heq
      exact hhead
    · exact hrest k v hmem

/-- Where no key is repeated, look-up is membership. -/
theorem lookup_eq_some_iff_mem (hkeys : (keys entries).Nodup) :
    entries.lookup key = some value ↔ (key, value) ∈ entries := by
  constructor
  · exact mem_of_lookup
  · intro hmem
    induction entries with
    | nil => simp at hmem
    | cons first rest ih =>
      obtain ⟨k, v⟩ := first
      obtain ⟨hfresh, hrest⟩ := List.nodup_cons.mp hkeys
      rcases List.mem_cons.mp hmem with heq | hmemRest
      · obtain ⟨rfl, rfl⟩ := Prod.mk.inj heq
        exact List.lookup_cons_self
      · have hne : (key == k) = false := by
          apply beq_eq_false_iff_ne.mpr
          rintro rfl
          exact hfresh (mem_keys_of_mem hmemRest)
        rw [List.lookup_cons, hne]
        exact ih hrest hmemRest

theorem eq_of_mem (hkeys : (keys entries).Nodup) {value' : α} (h : (key, value) ∈ entries)
    (h' : (key, value') ∈ entries) : value = value' := by
  have hvalue := (lookup_eq_some_iff_mem hkeys).mpr h
  rw [(lookup_eq_some_iff_mem hkeys).mpr h'] at hvalue
  exact (Option.some.inj hvalue).symm

theorem exists_lookup_of_mem_keys (h : key ∈ keys entries) :
    ∃ value, entries.lookup key = some value := by
  obtain ⟨⟨k, v⟩, hmem, rfl⟩ := List.mem_map.mp h
  have hsome : (entries.lookup k).isSome = true :=
    List.lookup_isSome_iff.mpr ⟨(k, v), hmem, by simp⟩
  exact Option.isSome_iff_exists.mp hsome

theorem lookup_eq_none_iff : entries.lookup key = none ↔ key ∉ keys entries := by
  constructor
  · intro hnone hmem
    obtain ⟨value, hvalue⟩ := exists_lookup_of_mem_keys hmem
    rw [hnone] at hvalue
    cases hvalue
  · intro hkey
    refine Option.eq_none_iff_forall_ne_some.mpr fun value hvalue => ?_
    exact hkey (mem_keys_of_mem (mem_of_lookup hvalue))

theorem hasKey_iff : hasKey key entries = true ↔ key ∈ keys entries := by
  constructor
  · intro h
    obtain ⟨value, hvalue⟩ := Option.isSome_iff_exists.mp h
    exact mem_keys_of_mem (mem_of_lookup hvalue)
  · intro h
    obtain ⟨value, hvalue⟩ := exists_lookup_of_mem_keys h
    simp [hasKey, hvalue]

/-- Editing each entry, with its key at hand, edits what is looked up. -/
theorem lookup_map {β : Type} (edit : String → α → β) :
    (entries.map fun entry => (entry.1, edit entry.1 entry.2)).lookup key =
      (entries.lookup key).map (edit key) := by
  induction entries with
  | nil => rfl
  | cons first rest ih =>
    obtain ⟨k, v⟩ := first
    rw [List.map_cons, List.lookup_cons, List.lookup_cons, ih]
    cases hk : key == k with
    | false => rfl
    | true => rw [beq_iff_eq.mp hk, Option.map_some]

/-- Leaving out other keys does not change what is looked up. -/
theorem lookup_filter_of_pos (keep : String → Bool) (h : keep key = true) :
    (entries.filter fun entry => keep entry.1).lookup key = entries.lookup key := by
  induction entries with
  | nil => rfl
  | cons first rest ih =>
    obtain ⟨k, v⟩ := first
    rw [List.filter_cons]
    by_cases hk : key = k
    · subst hk
      rw [if_pos h, List.lookup_cons_self, List.lookup_cons_self]
    · rw [List.lookup_cons, beq_false_of_ne hk]
      split
      · rw [List.lookup_cons, beq_false_of_ne hk, ih]
      · exact ih

/-! ### Insertion -/

theorem mem_of_mem_insert (h : entry ∈ insert key value entries) :
    entry = (key, value) ∨ entry ∈ entries := by
  induction entries with
  | nil => exact Or.inl (List.mem_singleton.mp h)
  | cons first rest ih =>
    obtain ⟨k, v⟩ := first
    rw [insert] at h
    split at h
    · rename_i hk
      subst hk
      rcases List.mem_cons.mp h with heq | hmem
      · exact Or.inl heq
      · exact Or.inr (List.mem_cons_of_mem _ hmem)
    · rcases List.mem_cons.mp h with heq | hmem
      · exact Or.inr (heq ▸ List.mem_cons_self)
      · exact (ih hmem).imp_right (List.mem_cons_of_mem _)

theorem lookup_insert_self : (insert key value entries).lookup key = some value := by
  induction entries with
  | nil => exact List.lookup_cons_self
  | cons first rest ih =>
    obtain ⟨k, v⟩ := first
    rw [insert]
    split
    · rename_i hk
      rw [hk]
      exact List.lookup_cons_self
    · rename_i hk
      rw [List.lookup_cons, beq_false_of_ne (Ne.symm hk)]
      exact ih

theorem lookup_insert_of_ne {other : String} (h : other ≠ key) :
    (insert key value entries).lookup other = entries.lookup other := by
  induction entries with
  | nil => rw [insert, List.lookup_cons, beq_false_of_ne h]
  | cons first rest ih =>
    obtain ⟨k, v⟩ := first
    rw [insert]
    split
    · rename_i hk
      rw [List.lookup_cons, List.lookup_cons, hk, beq_false_of_ne h]
    · rw [List.lookup_cons, List.lookup_cons, ih]

theorem insert_of_notMem_keys (h : key ∉ keys entries) :
    insert key value entries = entries ++ [(key, value)] := by
  induction entries with
  | nil => rfl
  | cons first rest ih =>
    obtain ⟨k, v⟩ := first
    obtain ⟨hne, hrest⟩ := not_or.mp (mt List.mem_cons.mpr h)
    rw [insert, if_neg (Ne.symm hne), ih hrest]
    rfl

theorem keys_insert_of_mem (h : key ∈ keys entries) :
    keys (insert key value entries) = keys entries := by
  induction entries with
  | nil => simp [keys] at h
  | cons first rest ih =>
    obtain ⟨k, v⟩ := first
    by_cases hk : k = key
    · simp [insert, hk, keys]
    · have hrest : key ∈ keys rest := (List.mem_cons.mp h).resolve_left (Ne.symm hk)
      simpa [insert, hk, keys] using ih hrest

theorem nodup_keys_insert (hkeys : (keys entries).Nodup) :
    (keys (insert key value entries)).Nodup := by
  by_cases hkey : key ∈ keys entries
  · rw [keys_insert_of_mem hkey]
    exact hkeys
  · rw [insert_of_notMem_keys hkey, keys, List.map_append]
    exact List.nodup_append'.mpr ⟨hkeys, List.nodup_singleton key,
      List.disjoint_singleton.mpr hkey⟩

/-! ### Building lists -/

theorem mem_of_mem_foldl_insert {start : List (String × α)}
    (h : entry ∈ entries.foldl (fun acc (k, v) => insert k v acc) start) :
    entry ∈ start ∨ entry ∈ entries := by
  induction entries generalizing start with
  | nil => exact Or.inl h
  | cons first rest ih =>
    rcases ih h with hstart | hrest
    · rcases mem_of_mem_insert hstart with heq | hmem
      · exact Or.inr (heq ▸ List.mem_cons_self)
      · exact Or.inl hmem
    · exact Or.inr (List.mem_cons_of_mem _ hrest)

theorem mem_of_mem_ofList (h : entry ∈ ofList entries) : entry ∈ entries :=
  (mem_of_mem_foldl_insert h).resolve_left List.not_mem_nil

theorem nodup_keys_foldl_insert {start : List (String × α)} (hstart : (keys start).Nodup) :
    (keys (entries.foldl (fun acc (k, v) => insert k v acc) start)).Nodup := by
  induction entries generalizing start with
  | nil => exact hstart
  | cons first rest ih => exact ih (nodup_keys_insert hstart)

theorem nodup_keys_ofList : (keys (ofList entries)).Nodup :=
  nodup_keys_foldl_insert List.nodup_nil

theorem ofList_eq_self (hkeys : (keys entries).Nodup) : ofList entries = entries := by
  have hfold : ∀ start : List (String × α), (keys (start ++ entries)).Nodup →
      entries.foldl (fun acc (k, v) => insert k v acc) start = start ++ entries := by
    induction entries with
    | nil => intro start _; simp
    | cons first rest ih =>
      obtain ⟨k, v⟩ := first
      intro start hstart
      have hfresh : k ∉ keys start := by
        intro hmem
        rw [keys, List.map_append] at hstart
        exact (List.nodup_append.mp hstart).2.2 k hmem k List.mem_cons_self rfl
      have hshift : start ++ (k, v) :: rest = (start ++ [(k, v)]) ++ rest := by simp
      have hstep := ih (List.nodup_cons.mp hkeys).2 (start ++ [(k, v)]) (hshift ▸ hstart)
      rw [← insert_of_notMem_keys hfresh] at hstep
      rw [List.foldl_cons, hstep, insert_of_notMem_keys hfresh, hshift]
  exact hfold [] hkeys

/-! ### Properties of all values -/

/-- A property that all values of a list of entries have. -/
def All (P : α → Prop) (entries : List (String × α)) : Prop :=
  ∀ key value, (key, value) ∈ entries → P value

instance {P : α → Prop} [DecidablePred P] {entries : List (String × α)} :
    Decidable (All P entries) :=
  decidable_of_iff (∀ entry ∈ entries, P entry.2)
    ⟨fun h key value hmem => h (key, value) hmem, fun h entry hmem => h entry.1 entry.2 hmem⟩

namespace All

variable {P : α → Prop}

theorem nil : All P [] := by
  intro key value h
  cases h

theorem cons_iff : All P ((key, value) :: entries) ↔ P value ∧ All P entries :=
  forall_mem_cons_iff

theorem lookup (hentries : All P entries) (h : entries.lookup key = some value) : P value :=
  hentries key value (mem_of_lookup h)

theorem insert (hvalue : P value) (hentries : All P entries) :
    All P (insert key value entries) := by
  intro key' value' h
  rcases mem_of_mem_insert h with heq | hmem
  · exact (Prod.mk.inj heq).2 ▸ hvalue
  · exact hentries key' value' hmem

theorem ofList (hentries : All P entries) : All P (ofList entries) :=
  fun key value h => hentries key value (mem_of_mem_ofList h)

end All

/-! ### Entries that agree -/

/-- The same keys on both sides, with related values. -/
def Agree {β : Type} (R : String → α → β → Prop) (es : List (String × α)) (fs : List (String × β)) :
    Prop :=
  ∀ key, Option.Rel (R key) (es.lookup key) (fs.lookup key)

namespace Agree

variable {β γ : Type} {R : String → α → β → Prop} {S : String → β → γ → Prop}
  {es : List (String × α)} {fs : List (String × β)} {gs : List (String × γ)} {a : α} {b : β}

theorem exists_right (h : Agree R es fs) (key : String) (ha : es.lookup key = some a) :
    ∃ b, fs.lookup key = some b ∧ R key a b := by
  have hkey := h key
  rw [ha] at hkey
  generalize fs.lookup key = found at hkey
  cases hkey with
  | some hab => exact ⟨_, rfl, hab⟩

theorem flip (h : Agree R es fs) : Agree (fun key b a => R key a b) fs es := by
  intro key
  have hkey := h key
  generalize es.lookup key = left at hkey ⊢
  generalize fs.lookup key = right at hkey ⊢
  cases hkey with
  | none => exact .none
  | some hab => exact .some hab

theorem exists_left (h : Agree R es fs) (key : String) (hb : fs.lookup key = some b) :
    ∃ a, es.lookup key = some a ∧ R key a b :=
  h.flip.exists_right key hb

theorem mem_keys_of_left (h : Agree R es fs) (hkey : key ∈ keys es) : key ∈ keys fs := by
  obtain ⟨a, ha⟩ := exists_lookup_of_mem_keys hkey
  obtain ⟨b, hb, _⟩ := h.exists_right key ha
  exact mem_keys_of_mem (mem_of_lookup hb)

theorem mem_keys_iff (h : Agree R es fs) : key ∈ keys es ↔ key ∈ keys fs :=
  ⟨h.mem_keys_of_left, h.flip.mem_keys_of_left⟩

theorem of_mem (hes : ∀ key a, (key, a) ∈ es → ∃ b, fs.lookup key = some b ∧ R key a b)
    (hkeys : ∀ key ∈ keys fs, key ∈ keys es) : Agree R es fs := by
  intro key
  cases ha : es.lookup key with
  | some a =>
    obtain ⟨b, hb, hab⟩ := hes key a (mem_of_lookup ha)
    rw [hb]
    exact .some hab
  | none =>
    have hfresh : key ∉ keys fs := fun hkey => lookup_eq_none_iff.mp ha (hkeys key hkey)
    rw [lookup_eq_none_iff.mpr hfresh]
    exact .none

theorem length_eq (hes : (keys es).Nodup) (hfs : (keys fs).Nodup) (h : Agree R es fs) :
    es.length = fs.length := by
  have hperm : (keys es).Perm (keys fs) :=
    (List.perm_ext_iff_of_nodup hes hfs).mpr fun key => h.mem_keys_iff
  simpa [keys] using hperm.length_eq

theorem imp {R' : String → α → β → Prop} (h : Agree R es fs)
    (himp : ∀ key a b, (key, a) ∈ es → (key, b) ∈ fs → R key a b → R' key a b) : Agree R' es fs := by
  intro key
  have hkey := h key
  cases ha : es.lookup key with
  | none =>
    cases hb : fs.lookup key with
    | none => exact .none
    | some b => rw [ha, hb] at hkey; cases hkey
  | some a =>
    obtain ⟨b, hb, hab⟩ := h.exists_right key ha
    rw [hb]
    exact .some (himp key a b (mem_of_lookup ha) (mem_of_lookup hb) hab)

theorem trans (h : Agree R es fs) (h' : Agree S fs gs) :
    Agree (fun key a c => ∃ b, R key a b ∧ S key b c) es gs := by
  intro key
  have hkey := h key
  have hkey' := h' key
  generalize es.lookup key = left at hkey ⊢
  generalize fs.lookup key = middle at hkey hkey'
  generalize gs.lookup key = right at hkey' ⊢
  cases hkey with
  | none =>
    cases hkey' with
    | none => exact .none
  | some hab =>
    cases hkey' with
    | some hbc => exact .some ⟨_, hab, hbc⟩

theorem nil : Agree R [] [] := fun _ => .none

theorem cons (hab : R key a b) (h : Agree R es fs) : Agree R ((key, a) :: es) ((key, b) :: fs) := by
  intro other
  rw [List.lookup_cons, List.lookup_cons]
  by_cases hother : other = key
  · rw [hother, beq_self_eq_true]
    exact .some hab
  · rw [beq_false_of_ne hother]
    exact h other

theorem insert (hab : R key a b) (h : Agree R es fs) :
    Agree R (insert key a es) (insert key b fs) := by
  intro other
  by_cases hother : other = key
  · rw [hother, lookup_insert_self, lookup_insert_self]
    exact .some hab
  · rw [lookup_insert_of_ne hother, lookup_insert_of_ne hother]
    exact h other

end Agree

/-- Where no key is repeated, every entry is what its key is looked up as. -/
theorem agree_iff {β : Type} {R : String → α → β → Prop} {fs : List (String × β)}
    (hkeys : (keys entries).Nodup) : Agree R entries fs ↔
      (∀ key a, (key, a) ∈ entries → ∃ b, fs.lookup key = some b ∧ R key a b) ∧
        ∀ key ∈ keys fs, key ∈ keys entries := by
  constructor
  · intro h
    refine ⟨fun key a hmem => ?_, fun key => h.mem_keys_iff.mpr⟩
    exact h.exists_right key ((lookup_eq_some_iff_mem hkeys).mpr hmem)
  · rintro ⟨hentries, hfs⟩
    exact .of_mem hentries hfs

end SchemaInfer.Entries
