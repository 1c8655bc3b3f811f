import SchemaInfer.Proofs.Differences
import SchemaInfer.Proofs.JsonSchemaImport
import SchemaInfer.Proofs.Unions
import Mathlib.Data.List.Permutation

/-!
# Documents that pass for the schema of a type

A document may differ from an exported schema in the order of its keys and, under some keywords, in the
order of arrays, and no difference is reported. Such a document still describes the type: importing it
gives a type that is a subtype and a supertype of the one that was exported. The order of names under
`type` and of schemas under `anyOf` only changes the order of the alternatives of a union, the order of
`required` changes nothing, and where a document is longer or shorter than the schema there is a
difference.
-/

namespace SchemaInfer

namespace Difference

variable {keyword : Option String} {key : String} {es as : List (String × Json)}

theorem lookup_eq_of_string {s : String} (h : ofJson keyword (.object es) (.object as) = [])
    (ha : as.lookup key = some (.string s)) : es.lookup key = some (.string s) := by
  obtain ⟨e, he, hnone⟩ := (agree_of_no_difference h).exists_left key ha
  rw [he, eq_of_string_actual hnone]

theorem eq_singleton_of_singleton {a : Json} (hkeys : (Entries.keys es).Nodup)
    (h : ofJson keyword (.object es) (.object [(key, a)]) = []) :
    ∃ e, es = [(key, e)] ∧ ofJson (some key) e a = [] := by
  have hagree := agree_of_no_difference h
  obtain ⟨e, he, hnone⟩ := hagree.exists_left key List.lookup_cons_self
  have hsingle : (Entries.keys [(key, a)]).Nodup := List.nodup_singleton key
  have hlength : es.length = 1 := hagree.length_eq hkeys hsingle
  obtain ⟨entry, rfl⟩ := List.length_eq_one_iff.mp hlength
  obtain rfl := List.mem_singleton.mp (Entries.mem_of_lookup he)
  exact ⟨e, rfl, hnone⟩

/-- Where an array of texts is a set, the other array has the same texts in some order. -/
theorem exists_names_of_sameMembers {xs : List Json} {names : List String}
    (h : sameMembers xs (names.map .string) = true) :
    ∃ others : List String, xs = others.map .string ∧ others.Perm names := by
  obtain ⟨zs, hperm, hxs⟩ := exists_perm_of_sameMembers h
  obtain ⟨others, rfl, hothers⟩ :
      Relation.Comp (fun zs others => zs = List.map Json.string others) List.Perm zs names := by
    rw [List.eq_map_comp_perm]
    exact hperm
  refine ⟨others, ?_, hothers⟩
  rw [← List.forall₂_eq_eq_eq]
  rw [List.forall₂_map_right_iff] at hxs ⊢
  exact hxs.imp fun x s hsame => Json.eq_of_same_string hsame

end Difference

namespace JsonSchema

open Difference

variable {keyword : Option String} {expected schema : Json} {es as : List (String × Json)} {t : Ty}

/-- Importing the document gives a type that fits this one and that this one fits. -/
def ReadsAlike (schema : Json) (t : Ty) : Prop :=
  ∃ back, Reads schema back ∧ back.WellFormed ∧ Ty.Fits back t ∧ Ty.Fits t back

theorem Reads.alike (h : Reads schema t) (ht : t.WellFormed) : ReadsAlike schema t :=
  ⟨t, h, ht, .refl ht, .refl ht⟩

theorem Reads.eq {s : Ty} (hs : Reads schema s) (ht : Reads schema t) : s = t :=
  Except.ok.inj ((hs (fun _ => .ok .any) "").symm.trans (ht (fun _ => .ok .any) ""))

theorem isExported_expected (has : IsExported as)
    (h : ofJson keyword (.object es) (.object as) = []) : IsExported es := by
  have hagree := agree_of_no_difference h
  constructor
  · intro key hkey
    exact has.keys key (hagree.mem_keys_iff.mp hkey)
  · intro hany htype
    exact has.anyOf (hagree.mem_keys_iff.mp hany) (hagree.mem_keys_iff.mp htype)

/-! ### Descriptions -/

/-- A schema without its description. -/
def undescribed (entries : List (String × Json)) : List (String × Json) :=
  entries.filter fun entry => entry.1 != "description"

theorem mem_undescribed {key : String} {value : Json} :
    (key, value) ∈ undescribed es ↔ (key, value) ∈ es ∧ key ≠ "description" := by
  simp [undescribed]

theorem distinctKeys_undescribed (hes : (Json.object es).DistinctKeys) :
    (Json.object (undescribed es)).DistinctKeys := by
  obtain ⟨hkeys, hvalues⟩ := Json.DistinctKeys.object_iff.mp hes
  refine Json.DistinctKeys.object_iff.mpr ⟨?_, ?_⟩
  · exact hkeys.sublist (List.filter_sublist.map _)
  · intro key value hmem
    exact hvalues key value (mem_undescribed.mp hmem).1

theorem sameExcept_undescribed (hkeys : (Entries.keys es).Nodup) :
    SameExcept ["description"] es (undescribed es) := by
  intro key hkey
  have hne : key ≠ "description" := fun heq => hkey (List.mem_singleton.mpr heq)
  have hkeys' : (Entries.keys (undescribed es)).Nodup := hkeys.sublist (List.filter_sublist.map _)
  apply Option.ext
  intro value
  rw [Entries.lookup_eq_some_iff_mem hkeys, Entries.lookup_eq_some_iff_mem hkeys', mem_undescribed]
  exact ⟨fun hmem => ⟨hmem, hne⟩, And.left⟩

theorem describe_object (description : Option String) (entries : List (String × Json)) :
    ∃ entries', describe description (.object entries) = .object entries' ∧
      SameExcept ["description"] entries' entries := by
  cases description with
  | none => exact ⟨entries, rfl, fun _ _ => rfl⟩
  | some text => exact ⟨_, rfl, .insert List.mem_cons_self _⟩

theorem ofJson_undescribed {as' : List (String × Json)} (hkeys : (Entries.keys es).Nodup)
    (has : IsExported as) (hsame : SameExcept ["description"] as' as)
    (h : ofJson keyword (.object es) (.object as') = []) :
    ofJson keyword (.object (undescribed es)) (.object as) = [] := by
  have hkeys' : (Entries.keys (undescribed es)).Nodup := hkeys.sublist (List.filter_sublist.map _)
  refine (ofJson_object_eq_nil_iff_agree hkeys').mpr fun key => ?_
  by_cases hkey : key ∈ ["description"]
  · obtain rfl := List.mem_singleton.mp hkey
    have hfresh : "description" ∉ Entries.keys (undescribed es) := by
      simp [Entries.keys, undescribed]
    rw [has.lookup_eq_none (by decide), Entries.lookup_eq_none_iff.mpr hfresh]
    exact .none
  · rw [← hsame key hkey, ← sameExcept_undescribed hkeys key hkey]
    exact agree_of_no_difference h key

/-- A schema passes for a type if it does so without its description. -/
theorem readsAlike_of_undescribed (hkeys : (Entries.keys es).Nodup)
    (h : ReadsAlike (.object (undescribed es)) t) : ReadsAlike (.object es) t := by
  obtain ⟨back, hreads, hfits⟩ := h
  refine ⟨back, fun deref path => ?_, hfits⟩
  rw [convert_congr (sameExcept_undescribed hkeys)]
  exact hreads deref path

/-! ### Objects -/

theorem declared_ty (required : List String) (name : String) (schema : Json) (t : Ty) :
    (declared required name schema t).ty = t := by
  unfold declared
  split <;> rfl

theorem isOptional_declared {required : List String} {name : String} :
    (declared required name schema t).isOptional = false ↔ name ∈ required := by
  unfold declared
  split
  · rename_i hname
    simp [Property.isOptional, Property.mandatory, hname]
  · rename_i hname
    simp [Property.isOptional, Property.optional, Property.mandatory, hname]

section Objects

variable {ps qs : Properties} {isOpen : Bool} {schemas expecteds : List (String × Json)}
  {names : List String}

/-- The property that an expected schema is read as, and the property of the type that it stands for. -/
def ReadsPropertyOf (ps : Properties) (names : List String) (named : String × Json)
    (entry : String × Property Ty) : Prop :=
  ReadsProperty names named entry ∧ entry.2.ty.WellFormed ∧
    ∃ p, (named.1, p) ∈ ps ∧ entry.2.isOptional = p.isOptional ∧
      Ty.Fits entry.2.ty p.ty ∧ Ty.Fits p.ty entry.2.ty

theorem exists_readsPropertyOf (hps : (Entries.keys ps).Nodup)
    (hschemas : List.Forall₂ IsPropertySchema ps schemas) (hnames : names.Perm (demanded ps))
    (hread : ∀ name p, (name, p) ∈ ps → ∀ expected schema, expected.DistinctKeys →
      ofType p.ty = .ok schema → ofJson (some name) expected schema = [] →
      ReadsAlike expected p.ty)
    (hexpecteds : (Json.object expecteds).DistinctKeys)
    (h : ofJson keyword (.object expecteds) (.object schemas) = []) :
    ∃ qs, List.Forall₂ (ReadsPropertyOf ps names) expecteds qs := by
  obtain ⟨_, hvalues⟩ := Json.DistinctKeys.object_iff.mp hexpecteds
  apply exists_forall₂_of_forall
  rintro ⟨name, expected⟩ hmem
  obtain ⟨_, hactual, hnone⟩ := (ofJson_object_eq_nil_iff.mp h).1 name expected hmem
  obtain ⟨p, schema, hp, hschema, rfl⟩ := exists_property hschemas (Entries.mem_of_lookup hactual)
  obtain ⟨as, rfl, has⟩ := exists_isExported hschema
  have hdistinct : expected.DistinctKeys := hvalues name expected hmem
  obtain ⟨as', hdescribe, hsame⟩ := describe_object p.description as
  rw [hdescribe] at hnone
  obtain ⟨es, rfl⟩ := exists_of_object_actual hnone
  obtain ⟨hkeys, _⟩ := Json.DistinctKeys.object_iff.mp hdistinct
  have halike : ReadsAlike (.object es) p.ty := by
    apply readsAlike_of_undescribed hkeys
    apply hread name p hp _ _ (distinctKeys_undescribed hdistinct) hschema
    exact ofJson_undescribed hkeys has hsame hnone
  obtain ⟨back, hreads, hback, hfits⟩ := halike
  have hoptional : (declared names name (.object es) back).isOptional = p.isOptional := by
    rw [Bool.eq_iff_iff, ← not_iff_not, Bool.not_eq_true, Bool.not_eq_true, isOptional_declared,
      hnames.mem_iff, mem_demanded_iff hps hp]
  refine ⟨(name, declared names name (.object es) back), ⟨back, hreads, rfl⟩, ?_, p, hp, hoptional, ?_⟩
  · rwa [declared_ty]
  · rwa [declared_ty]

/-- The keywords of a document that passes for the schema of an object. -/
theorem exists_object_keywords
    (h : ofJson keyword (.object es) (ofObject schemas (demanded ps) isOpen) = []) :
    ∃ (expecteds : List (String × Json)) (names : List String),
      es.lookup "properties" = some (.object expecteds) ∧
      ofJson (some "properties") (.object expecteds) (.object schemas) = [] ∧
      es.lookup "required" = some (.array (names.map .string)) ∧ names.Perm (demanded ps) ∧
      es.lookup "additionalProperties" = some (.bool isOpen) := by
  have hagree := agree_of_no_difference h
  obtain ⟨_, hproperties, hnone⟩ := hagree.exists_left "properties" rfl
  obtain ⟨expecteds, rfl⟩ := exists_of_object_actual hnone
  obtain ⟨_, hrequired, hset⟩ := hagree.exists_left "required" rfl
  obtain ⟨_, rfl, hmembers⟩ := exists_of_unordered_actual (by decide) hset
  obtain ⟨names, rfl, hnames⟩ := exists_names_of_sameMembers hmembers
  obtain ⟨_, hopen, hbool⟩ := hagree.exists_left "additionalProperties" rfl
  obtain rfl := eq_of_bool_actual hbool
  exact ⟨expecteds, names, hproperties, hnone, hrequired, hnames, hopen⟩

theorem readsAlike_object (hps : (Entries.keys ps).Nodup)
    (hschemas : List.Forall₂ IsPropertySchema ps schemas)
    (hread : ∀ name p, (name, p) ∈ ps → ∀ expected schema, expected.DistinctKeys →
      ofType p.ty = .ok schema → ofJson (some name) expected schema = [] →
      ReadsAlike expected p.ty)
    (hentries : IsExported es) (hes : (Json.object es).DistinctKeys)
    (h : ofJson keyword (.object es) (ofObject schemas (demanded ps) isOpen) = []) :
    ReadsAlike (.object es) (.object ps isOpen) := by
  obtain ⟨_, hvalues⟩ := Json.DistinctKeys.object_iff.mp hes
  obtain ⟨expecteds, names, hproperties, hnone, hrequired, hnames, hopen⟩ := exists_object_keywords h
  have hexpecteds : (Json.object expecteds).DistinctKeys := hvalues.lookup hproperties
  obtain ⟨hkeys, _⟩ := Json.DistinctKeys.object_iff.mp hexpecteds
  have hsame : ∀ name, name ∈ Entries.keys expecteds ↔ name ∈ Entries.keys ps := by
    intro name
    rw [← keys_propertySchemas hschemas]
    exact (agree_of_no_difference hnone).mem_keys_iff
  obtain ⟨qs, hqs⟩ := exists_readsPropertyOf hps hschemas hnames hread hexpecteds hnone
  have hreads := hqs.imp fun _ _ hq => hq.1
  have hqskeys := keys_of_readsProperty hreads
  have hnode : ∀ name q, (name, q) ∈ qs → q.ty.WellFormed ∧ ∃ p, (name, p) ∈ ps ∧
      q.isOptional = p.isOptional ∧ Ty.Fits q.ty p.ty ∧ Ty.Fits p.ty q.ty := by
    intro name q hq
    obtain ⟨⟨_, _⟩, _, ⟨_, _, heq⟩, hwf, hp⟩ := exists_related_of_mem hqs.flip hq
    obtain ⟨rfl, rfl⟩ := Prod.mk.inj heq
    exact ⟨hwf, hp⟩
  refine ⟨.object qs isOpen, ?_, ?_, ?_⟩
  · apply reads_object hentries (lookup_eq_of_string h rfl) hproperties hrequired hopen hkeys _ hreads
    intro name hname
    obtain ⟨p, hp, _⟩ := mem_demanded.mp (hnames.subset hname)
    exact (hsame name).mpr (Entries.mem_keys_of_mem hp)
  · exact Ty.WellFormed.object_iff.mpr ⟨hqskeys ▸ hkeys, fun name q hq => (hnode name q hq).1⟩
  · refine (Ty.fits_both_object hps (fun name => ?_) fun name q hq => ?_).symm
    · rw [hqskeys, hsame]
    · obtain ⟨_, p, hp, hoptional, hforth, hback⟩ := hnode name q hq
      exact ⟨p, hp, hoptional.symm, hback, hforth⟩

end Objects

/-! ### Unions -/

section Unions

variable {ms types : List Ty} {schemas : List Json}

theorem readsAlike_union (hwf : ∀ s ∈ types, s.WellFormed) (hne : ms ≠ [])
    (hforth : ∀ s ∈ types, ∃ m ∈ ms, Ty.Fits s m) (hback : ∀ m ∈ ms, ∃ s ∈ types, Ty.Fits m s)
    (h : Reads schema (Ty.oneOf types)) : ReadsAlike schema (.union ms) := by
  obtain ⟨m, hm⟩ := List.exists_mem_of_ne_nil _ hne
  obtain ⟨s, hs, _⟩ := hback m hm
  refine ⟨_, h, Ty.wellFormed_oneOf hwf, ?_, ?_⟩
  · refine (Ty.oneOf_fits_iff (List.ne_nil_of_mem hs) hwf).mpr fun s hs => ?_
    obtain ⟨m, hm, hfits⟩ := hforth s hs
    exact .unionRight hm hfits
  · refine .unionLeft fun m hm => ?_
    obtain ⟨s, hs, hfits⟩ := hback m hm
    exact hfits.trans (Ty.fits_oneOf hwf hs)

/-- Alternatives are compared as they stand, but what is equal as it stands has no difference either. -/
theorem readsAlike_anyOf {listed : List Ty} (hms : ms ≠ []) (hlisted : listed.Perm ms)
    (hschemas : List.Forall₂ (fun m s => ofType m = .ok s) listed schemas)
    (hread : ∀ m ∈ ms, ∀ expected schema, expected.DistinctKeys → ofType m = .ok schema →
      ofJson none expected schema = [] → ReadsAlike expected m)
    (hes : (Json.object es).DistinctKeys) (h : ofJson keyword (.object es) (anyOf schemas) = []) :
    ReadsAlike (.object es) (.union ms) := by
  obtain ⟨hkeys, hvalues⟩ := Json.DistinctKeys.object_iff.mp hes
  obtain ⟨_, rfl, hset⟩ := eq_singleton_of_singleton hkeys h
  obtain ⟨xs, rfl, hmembers⟩ := exists_of_unordered_actual (by decide) hset
  obtain ⟨zs, hperm, hzs⟩ := exists_perm_of_sameMembers hmembers
  have hxs := Json.DistinctKeys.array_iff.mp (hvalues "anyOf" _ List.mem_cons_self)
  have halike : ∀ x ∈ xs, ∀ z, x.same z = true → ∀ m ∈ ms, ofType m = .ok z → ReadsAlike x m := by
    intro x hx z hsame m hm hz
    exact hread m hm x z (hxs x hx) hz (ofJson_eq_nil_of_same (hxs x hx) hsame)
  have hexists : ∀ x ∈ xs, ∃ s, Reads x s ∧ s.WellFormed ∧ ∃ m ∈ ms, Ty.Fits s m := by
    intro x hx
    obtain ⟨z, hz, hsame⟩ := exists_related_of_mem hzs hx
    obtain ⟨m, hm, hschema⟩ := exists_related_of_mem hschemas.flip (hperm.subset hz)
    obtain ⟨s, hs, hwf, hforth, _⟩ := halike x hx z hsame m (hlisted.subset hm) hschema
    exact ⟨s, hs, hwf, m, hlisted.subset hm, hforth⟩
  obtain ⟨types, htypes⟩ := exists_forall₂_of_forall hexists
  have hnode : ∀ s ∈ types, s.WellFormed ∧ ∃ m ∈ ms, Ty.Fits s m := by
    intro s hs
    obtain ⟨_, _, _, hwf, hm⟩ := exists_related_of_mem htypes.flip hs
    exact ⟨hwf, hm⟩
  refine readsAlike_union (fun s hs => (hnode s hs).1) hms (fun s hs => (hnode s hs).2) ?_
    (reads_anyOf (htypes.imp fun _ _ hs => hs.1))
  intro m hm
  obtain ⟨z, hz, hschema⟩ := exists_related_of_mem hschemas (hlisted.symm.subset hm)
  obtain ⟨x, hx, hsame⟩ := exists_related_of_mem hzs.flip (hperm.symm.subset hz)
  obtain ⟨s, hs, hreads, _⟩ := exists_related_of_mem htypes hx
  obtain ⟨back, hback, _, _, hfits⟩ := halike x hx z hsame m hm hschema
  -- members with the same schema are read as one type, whichever of them was found first
  exact ⟨s, hs, hback.eq hreads ▸ hfits⟩

/-- With one name for all under `type`, a document passes for the schema that has this name. -/
theorem ofJson_narrowed {name : String} {value : Json} {entries : List (String × Json)}
    (hkeys : (Entries.keys es).Nodup) (htype : entries.lookup "type" = some (.string name))
    (h : ofJson keyword (.object es) (.object (Entries.insert "type" value entries)) = []) :
    ofJson keyword (.object (Entries.insert "type" (.string name) es)) (.object entries) = [] := by
  refine (ofJson_object_eq_nil_iff_agree (Entries.nodup_keys_insert hkeys)).mpr fun key => ?_
  by_cases hkey : key = "type"
  · rw [hkey, Entries.lookup_insert_self, htype]
    exact .some (ofJson_eq_nil_of_same rfl (Json.same_refl rfl))
  · have hrel := agree_of_no_difference h key
    rwa [Entries.lookup_insert_of_ne hkey] at hrel ⊢

/-- The names under `type` may come in either order. -/
theorem reads_widened {name : String} {names : List String} {back : Ty} (hes : IsExported es)
    (hnarrowed : IsExported (Entries.insert "type" (.string name) es))
    (hnames : es.lookup "type" = some (.array (names.map .string)))
    (hperm : names.Perm [name, "null"])
    (hback : Reads (.object (Entries.insert "type" (.string name) es)) back) :
    ∃ types, (types = [back, .null] ∨ types = [.null, back]) ∧
      Reads (.object es) (Ty.oneOf types) := by
  have hany : es.lookup "anyOf" = none := by
    refine Entries.lookup_eq_none_iff.mpr fun hmem => hes.anyOf hmem ?_
    exact Entries.mem_keys_of_mem (Entries.mem_of_lookup hnames)
  have hsame : SameExcept ["type", "description"] (Entries.insert "type" (.string name) es) es :=
    .insert List.mem_cons_self _
  have hnamed : ∀ (deref : String → Except ImportError Ty) path,
      convertNamed deref path es name = .ok back := by
    intro deref path
    rw [← convertNamed_congr hsame, ← convert_eq_convertNamed hnarrowed Entries.lookup_insert_self]
    exact hback deref path
  have hnull : ∀ (deref : String → Except ImportError Ty) path,
      convertNamed deref path es "null" = .ok .null := by
    intro deref path
    rw [convertNamed]
    rfl
  have hreads : ∀ types, (∀ (deref : String → Except ImportError Ty) path, List.Forall₂ (fun n s =>
      convertNamed deref path es n = .ok s) names types) → Reads (.object es) (Ty.oneOf types) := by
    intro types htypes deref path
    rw [convert_eq_convertTyped hes hany]
    exact convertTyped_of_names hnames (htypes deref path)
  rcases List.perm_pair.mp hperm with rfl | rfl
  · refine ⟨[back, .null], Or.inl rfl, hreads _ fun deref path => ?_⟩
    exact .cons (hnamed deref path) (.cons (hnull deref path) .nil)
  · refine ⟨[.null, back], Or.inr rfl, hreads _ fun deref path => ?_⟩
    exact .cons (hnull deref path) (.cons (hnamed deref path) .nil)

theorem readsAlike_nullable {m back : Ty} (hms : ms = [m, .null] ∨ ms = [.null, m])
    (htypes : types = [back, .null] ∨ types = [.null, back]) (hwf : back.WellFormed)
    (hforth : Ty.Fits back m) (hback : Ty.Fits m back) (h : Reads schema (Ty.oneOf types)) :
    ReadsAlike schema (.union ms) := by
  have hnull : Ty.null.WellFormed := .of_isPrimitive rfl
  have hmem : ∀ s, s ∈ types ↔ s = back ∨ s = .null := fun _ => Ty.mem_nullable_iff htypes
  have hmem' : ∀ s, s ∈ ms ↔ s = m ∨ s = .null := fun _ => Ty.mem_nullable_iff hms
  refine readsAlike_union ?_ (List.ne_nil_of_mem (Ty.mem_of_nullable hms)) ?_ ?_ h
  · intro s hs
    rcases (hmem s).mp hs with rfl | rfl
    · exact hwf
    · exact hnull
  · intro s hs
    rcases (hmem s).mp hs with rfl | rfl
    · exact ⟨m, (hmem' m).mpr (Or.inl rfl), hforth⟩
    · exact ⟨.null, (hmem' _).mpr (Or.inr rfl), .refl hnull⟩
  · intro s hs
    rcases (hmem' s).mp hs with rfl | rfl
    · exact ⟨back, (hmem back).mpr (Or.inl rfl), hback⟩
    · exact ⟨.null, (hmem _).mpr (Or.inr rfl), .refl hnull⟩

theorem readsAlike_widened {m : Ty} {name : String} {entries : List (String × Json)}
    (hentries : IsExported entries) (htype : entries.lookup "type" = some (.string name))
    (hread : ∀ expected, expected.DistinctKeys → ofJson keyword expected (.object entries) = [] →
      ReadsAlike expected m)
    (hms : ms = [m, .null] ∨ ms = [.null, m]) (hes : (Json.object es).DistinctKeys)
    (h : ofJson keyword (.object es) (.object
      (Entries.insert "type" (.array [.string name, .string "null"]) entries)) = []) :
    ReadsAlike (.object es) (.union ms) := by
  obtain ⟨hkeys, hvalues⟩ := Json.DistinctKeys.object_iff.mp hes
  have hnarrowed := ofJson_narrowed hkeys htype h
  have hdistinct : (Json.object (Entries.insert "type" (.string name) es)).DistinctKeys :=
    Json.DistinctKeys.object_iff.mpr ⟨Entries.nodup_keys_insert hkeys, hvalues.insert rfl⟩
  obtain ⟨back, hreads, hwf, hforth, hback⟩ := hread _ hdistinct hnarrowed
  obtain ⟨_, hnames, hset⟩ :=
    (agree_of_no_difference h).exists_left "type" Entries.lookup_insert_self
  obtain ⟨xs, rfl, hmembers⟩ := exists_of_unordered_actual (by decide) hset
  obtain ⟨names, rfl, hperm⟩ := @exists_names_of_sameMembers xs [name, "null"] hmembers
  have hkey := Entries.mem_keys_of_mem (Entries.mem_of_lookup htype)
  have hexported := isExported_expected (hentries.insert_of_mem hkey _) h
  obtain ⟨types, htypes, hunion⟩ :=
    reads_widened hexported (isExported_expected hentries hnarrowed) hnames hperm hreads
  exact readsAlike_nullable hms htypes hwf hforth hback hunion

end Unions

/-! ### All types -/

/-- A document without a difference to the schema of a type describes an equivalent type. The proof
follows the type; what the document is at each place is told by the schema there. -/
theorem readsAlike_of_no_difference (ht : t.WellFormed) (hschema : ofType t = .ok schema)
    (hexpected : expected.DistinctKeys) (h : ofJson keyword expected schema = []) :
    ReadsAlike expected t := by
  induction t generalizing keyword expected schema with
  | string | number | integer | boolean | null =>
    cases hschema
    obtain ⟨es, rfl⟩ := exists_of_object_actual h
    have hentries := isExported_expected ⟨by decide, by decide⟩ h
    refine Reads.alike (fun deref path => ?_) ht
    rw [convert_eq_convertNamed hentries (lookup_eq_of_string h rfl), convertNamed]
    rfl
  | any =>
    cases hschema
    obtain ⟨es, rfl⟩ := exists_of_object_actual h
    obtain rfl : es = [] := by
      apply List.eq_nil_iff_forall_not_mem.mpr
      rintro ⟨key, e⟩ hmem
      obtain ⟨_, ha, _⟩ := (ofJson_object_eq_nil_iff.mp h).1 key e hmem
      cases ha
    exact (reads_ofType ht rfl).alike ht
  | var name => cases hschema
  | function params r _ _ => cases hschema
  | array t ih =>
    obtain ⟨_, heq, hentries⟩ := exists_isExported hschema
    obtain ⟨items, hitems, rfl⟩ := ofType_array_eq_ok_iff.mp hschema
    cases heq
    obtain ⟨es, rfl⟩ := exists_of_object_actual h
    obtain ⟨e, he, hnone⟩ := (agree_of_no_difference h).exists_left "items" rfl
    obtain ⟨_, rfl, _⟩ := exists_isExported hitems
    obtain ⟨es', rfl⟩ := exists_of_object_actual hnone
    have hdistinct := (Json.DistinctKeys.object_iff.mp hexpected).2.lookup he
    obtain ⟨back, hreads, hwf, hforth, hback⟩ :=
      ih (Ty.WellFormed.array_iff.mp ht) hitems hdistinct hnone
    exact ⟨.array back, reads_array (isExported_expected hentries h) (lookup_eq_of_string h rfl) he hreads,
      Ty.WellFormed.array_iff.mpr hwf, .array hforth, .array hback⟩
  | object ps isOpen ih =>
    obtain ⟨_, heq, hentries⟩ := exists_isExported hschema
    obtain ⟨hkeys, hps⟩ := Ty.WellFormed.object_iff.mp ht
    obtain ⟨schemas, hschemas, rfl⟩ := ofType_object_eq_ok_iff.mp hschema
    cases heq
    obtain ⟨es, rfl⟩ := exists_of_object_actual h
    refine readsAlike_object hkeys hschemas ?_ (isExported_expected hentries h) hexpected h
    intro name p hp expected schema hdistinct hty hnone
    exact ih name p hp (hps name p hp) hty hdistinct hnone
  | union ms ih =>
    obtain ⟨hlength, _, _, hms⟩ := Ty.WellFormed.union_iff.mp ht
    have hne : ms ≠ [] := List.ne_nil_of_length_pos (by omega)
    obtain ⟨_, heq, _⟩ := exists_isExported hschema
    obtain ⟨es, rfl⟩ := exists_of_object_actual (heq ▸ h)
    clear heq
    have hread : ∀ m ∈ ms, ∀ expected schema, expected.DistinctKeys → ofType m = .ok schema →
        ofJson none expected schema = [] → ReadsAlike expected m :=
      fun m hm _ _ hdistinct hty hnone => ih m hm (hms m hm) hty hdistinct hnone
    rcases ofType_union_forms hschema with
      ⟨m, name, entries, hpair, hinner, htype, rfl⟩ | ⟨listed, schemas, hlisted, hschemas, rfl⟩
    · have hm := Ty.mem_of_nullable hpair
      obtain ⟨_, heq, hentries⟩ := exists_isExported hinner
      cases heq
      refine readsAlike_widened hentries htype ?_ hpair hexpected h
      intro expected hdistinct hnone
      exact ih m hm (hms m hm) hinner hdistinct hnone
    · exact readsAlike_anyOf hne hlisted hschemas hread hexpected h

/-- **A document without a difference to an exported schema describes the type.** A well-formed data
type has a schema, and every document that is equal to it has no difference to it. Whatever has no
difference to it is imported as a type that is a subtype and a supertype of the exported one. -/
theorem toType_of_no_difference (hexpected : expected.DistinctKeys) (ht : t.WellFormed)
    (hdata : t.IsData) :
    ∃ schema, ofType t = .ok schema ∧
      (expected.same schema = true → ofJson none expected schema = []) ∧
      (ofJson none expected schema = [] → ∃ back, toType expected = .ok back ∧
        back.subtypeOf t = true ∧ t.subtypeOf back = true) := by
  obtain ⟨schema, hschema⟩ := exists_ofType hdata
  refine ⟨schema, hschema, ofJson_eq_nil_of_same hexpected, fun hnone => ?_⟩
  obtain ⟨back, hreads, hback, hforth, hfits⟩ :=
    readsAlike_of_no_difference ht hschema hexpected hnone
  exact ⟨back, hreads _ _, Ty.subtypeOf_of_fits hback ht hforth, Ty.subtypeOf_of_fits ht hback hfits⟩

/-- Keys, demanded names, names under `type` and alternatives all stand in another order, and the text
repeats a key. -/
theorem toType_of_no_difference_of_reordered :
    let t : Ty := .object
      [("id", Property.mandatory .integer),
        ("note", { Property.mandatory (.union [.null, .string]) with description := some "free text" }),
        ("tags", Property.optional (.array (.union [.string, .integer, .object
          [("a", Property.mandatory .any), ("b", Property.optional .number)] true])))] false
    let expected : Json := Json.collapse <| .object
      [("required", .array [.string "note", .string "id"]), ("additionalProperties", .bool false),
        ("properties", .object
          [("tags", .object
            [("items", .object [("anyOf", .array
              [.object [("additionalProperties", .bool true), ("required", .array [.string "a"]),
                ("properties", .object
                  [("b", .object [("type", .string "number")]), ("a", .object [])]),
                ("type", .string "object")],
              .object [("type", .string "integer")], .object [("type", .string "string")]])]),
            ("type", .string "array")]),
          ("note", .object
            [("description", .string "free text"), ("type", .array [.string "null", .string "string"])]),
          ("id", .object [("type", .string "string"), ("type", .string "integer")])]),
        ("type", .string "object")]
    (expected.DistinctKeys ∧ t.WellFormed ∧ t.IsData) ∧ ∃ back, toType expected = .ok back ∧
      back.subtypeOf t = true ∧ t.subtypeOf back = true := by
  intro t expected
  have hexpected : expected.DistinctKeys := Json.distinctKeys_collapse _
  have ht : t.WellFormed := by decide
  have hdata : t.IsData := by decide
  obtain ⟨schema, hschema, _, hpass⟩ := toType_of_no_difference hexpected ht hdata
  cases hschema
  exact ⟨⟨hexpected, ht, hdata⟩, hpass rfl⟩

end JsonSchema

end SchemaInfer
