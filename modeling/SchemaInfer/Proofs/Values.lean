import SchemaInfer.Json.Basic
import SchemaInfer.Proofs.Unions

/-!
# The values of a type

`Json.Conforms` says which JSON values a type describes. An object has the properties that may not be
absent, those of its properties that the type declares have the declared types, and it has others only
if the type is open. No value conforms to a function type or to a type variable.

Equal types have the same values, so a union of types has the values that one of them has, whatever
`Ty.oneOf` drops on the way.
-/

namespace SchemaInfer

/-- The value is one that the type describes. -/
inductive Json.Conforms : Json → Ty → Prop
  | any {v : Json} : Conforms v .any
  | null : Conforms .null .null
  | boolean {b : Bool} : Conforms (.bool b) .boolean
  | string {s : String} : Conforms (.string s) .string
  | integer {n : Int} : Conforms (.int n) .integer
  | wholeNumber {n : Int} : Conforms (.int n) .number
  | number {x : Binary64} : Conforms (.float x) .number
  | array {items : List Json} {t : Ty} :
    (∀ item ∈ items, Conforms item t) → Conforms (.array items) (.array t)
  | object {entries : List (String × Json)} {ps : Properties} {isOpen : Bool} :
    (∀ name p, (name, p) ∈ ps → p.isOptional = false → name ∈ Entries.keys entries) →
    (∀ name p v, (name, p) ∈ ps → (name, v) ∈ entries → Conforms v p.ty) →
    (isOpen = false → ∀ name ∈ Entries.keys entries, name ∈ Entries.keys ps) →
    Conforms (.object entries) (.object ps isOpen)
  | union {v : Json} {m : Ty} {ms : List Ty} : m ∈ ms → Conforms v m → Conforms v (.union ms)

namespace Ty

open Json (Conforms)

variable {a b t : Ty} {types : List Ty} {v : Json}

/-! ### Testing values -/

mutual

/-- Tests whether a value conforms to a type. -/
def admits : Ty → Json → Bool
  | any, _ | null, .null | boolean, .bool _ | string, .string _ | integer, .int _ => true
  | number, .int _ | number, .float _ => true
  | array t, .array items => items.all fun item => t.admits item
  | object ps isOpen, .object entries =>
    admitsProperties ps entries && (isOpen || entries.all fun (name, _) => Entries.hasKey name ps)
  | union ms, v => anyAdmits ms v
  | _, _ => false
termination_by structural t => t

def anyAdmits : List Ty → Json → Bool
  | [], _ => false
  | t :: ts, v => t.admits v || anyAdmits ts v
termination_by structural ts => ts

def admitsProperties : List (String × Property Ty) → List (String × Json) → Bool
  | [], _ => true
  | (name, p) :: ps, entries =>
    (p.isOptional || Entries.hasKey name entries)
      && (entries.all fun (key, v) => key != name || p.ty.admits v)
      && admitsProperties ps entries
termination_by structural ps => ps

end

theorem anyAdmits_iff : anyAdmits types v = true ↔ ∃ t ∈ types, t.admits v = true := by
  induction types with
  | nil => simp [anyAdmits]
  | cons t ts ih => simp [anyAdmits, ih]

theorem admitsProperties_iff {ps : Properties} {entries : List (String × Json)} :
    admitsProperties ps entries = true ↔ ∀ name p, (name, p) ∈ ps →
      (p.isOptional = false → name ∈ Entries.keys entries) ∧
        ∀ v, (name, v) ∈ entries → p.ty.admits v = true := by
  induction ps with
  | nil => simp [admitsProperties]
  | cons first ps ih =>
    obtain ⟨name, p⟩ := first
    have hpresent : (p.isOptional || Entries.hasKey name entries) = true ↔
        (p.isOptional = false → name ∈ Entries.keys entries) := by
      cases p.isOptional <;> simp [Entries.hasKey_iff]
    have hvalues : (entries.all fun (key, v) => key != name || p.ty.admits v) = true ↔
        ∀ v, (name, v) ∈ entries → p.ty.admits v = true := by
      simp only [List.all_eq_true, Prod.forall, Bool.or_eq_true, bne_iff_ne]
      constructor
      · intro h v hv
        exact (h name v hv).resolve_left (fun hne => hne rfl)
      · intro h key v hv
        by_cases hkey : key = name
        · exact Or.inr (h v (hkey ▸ hv))
        · exact Or.inl hkey
    rw [admitsProperties, Bool.and_eq_true, Bool.and_eq_true, hpresent, hvalues, ih,
      Entries.forall_mem_cons_iff]

theorem admits_of_conforms (h : Conforms v t) : t.admits v = true := by
  induction h with
  | any | null | boolean | string | integer | wholeNumber | number => simp [admits]
  | array _ ih => simpa [admits] using ih
  | @object _ _ isOpen hpresent _ hclosed ih =>
    rw [admits, Bool.and_eq_true, admitsProperties_iff]
    refine ⟨fun name p hp => ⟨hpresent name p hp, fun v hv => ih name p v hp hv⟩, ?_⟩
    cases isOpen with
    | true => rfl
    | false => simpa [Entries.hasKey_iff, Entries.keys] using hclosed
  | union hm _ ih =>
    rw [admits, anyAdmits_iff]
    exact ⟨_, hm, ih⟩

theorem conforms_of_admits (h : t.admits v = true) : Conforms v t := by
  induction t generalizing v with
  | string | number | integer | boolean | null | any | var _ | function _ _ =>
    cases v <;> first | constructor | simp [admits] at h
  | array t ih =>
    cases v with
    | array items =>
      simp only [admits, List.all_eq_true] at h
      exact .array fun item hitem => ih (h item hitem)
    | _ => simp [admits] at h
  | object ps isOpen ih =>
    cases v with
    | object entries =>
      rw [admits, Bool.and_eq_true, admitsProperties_iff] at h
      obtain ⟨hproperties, hopen⟩ := h
      refine .object (fun name p hp => (hproperties name p hp).1)
        (fun name p v hp hv => ih name p hp ((hproperties name p hp).2 v hv)) (fun hclosed => ?_)
      simpa [hclosed, Entries.hasKey_iff, Entries.keys] using hopen
    | _ => simp [admits] at h
  | union ms ih =>
    rw [admits, anyAdmits_iff] at h
    obtain ⟨m, hm, hv⟩ := h
    exact .union hm (ih m hm hv)

theorem conforms_iff_admits : Conforms v t ↔ t.admits v = true :=
  ⟨admits_of_conforms, conforms_of_admits⟩

instance : Decidable (Conforms v t) :=
  decidable_of_iff (t.admits v = true) conforms_iff_admits.symm

/-! ### The values of null, arrays and objects -/

theorem conforms_null_iff : Conforms v null ↔ v = .null := by
  constructor
  · intro h
    cases h with
    | null => rfl
  · rintro rfl
    exact .null

theorem conforms_array_iff : Conforms v (array t) ↔
    ∃ items, v = .array items ∧ ∀ item ∈ items, Conforms item t := by
  constructor
  · intro h
    cases h with
    | array hitems => exact ⟨_, rfl, hitems⟩
  · rintro ⟨items, rfl, hitems⟩
    exact .array hitems

theorem conforms_object_iff {ps : Properties} {isOpen : Bool} : Conforms v (object ps isOpen) ↔
    ∃ entries, v = .object entries ∧
      (∀ name p, (name, p) ∈ ps → p.isOptional = false → name ∈ Entries.keys entries) ∧
      (∀ name p w, (name, p) ∈ ps → (name, w) ∈ entries → Conforms w p.ty) ∧
      (isOpen = false → ∀ name ∈ Entries.keys entries, name ∈ Entries.keys ps) := by
  constructor
  · intro h
    cases h with
    | object hpresent hvalues hclosed => exact ⟨_, rfl, hpresent, hvalues, hclosed⟩
  · rintro ⟨entries, rfl, hpresent, hvalues, hclosed⟩
    exact .object hpresent hvalues hclosed

/-! ### Equal types and unions -/

theorem conforms_of_beq (ha : a.WellFormed) (hb : b.WellFormed) (hab : (a == b) = true)
    (hv : Conforms v a) : Conforms v b := by
  induction hv generalizing b with
  | any | null | boolean | string | integer | wholeNumber | number =>
    obtain rfl := eq_of_primitive_beq rfl hab
    constructor
  | array _ ih =>
    obtain ⟨u, rfl, htu⟩ := exists_of_array_beq hab
    refine .array fun item hitem => ?_
    exact ih item hitem (WellFormed.array_iff.mp ha) (WellFormed.array_iff.mp hb) htu
  | @object entries ps isOpen hpresent _ hclosed ih =>
    obtain ⟨qs, rfl, _, hpq⟩ := exists_of_object_beq hab
    obtain ⟨_, hqp, _⟩ := object_beq_iff.mp (beq_symm ha hb hab)
    have hps := (WellFormed.object_iff.mp ha).2
    have hqs := (WellFormed.object_iff.mp hb).2
    refine .object (fun name q hq hdemanded => ?_) (fun name q w hq hw => ?_)
      (fun hopen name hname => ?_)
    · obtain ⟨p, hp, hsame⟩ := hqp name q hq
      exact hpresent name p (Entries.mem_of_lookup hp) (hsame.isOptional ▸ hdemanded)
    · obtain ⟨p, hp, hsame⟩ := hqp name q hq
      have hmem := Entries.mem_of_lookup hp
      have hty := beq_symm (hqs name q hq) (hps name p hmem) hsame.ty
      exact ih name p w hmem hw (hps name p hmem) (hqs name q hq) hty
    · obtain ⟨p, hp⟩ := Entries.exists_lookup_of_mem_keys (hclosed hopen name hname)
      obtain ⟨q, hq, _⟩ := hpq name p (Entries.mem_of_lookup hp)
      exact Entries.mem_keys_of_mem (Entries.mem_of_lookup hq)
  | union hm _ ih =>
    obtain ⟨ns, rfl, _, hmn⟩ := exists_of_union_beq hab
    obtain ⟨n, hn, heq⟩ := hmn _ hm
    obtain ⟨_, _, _, hms⟩ := WellFormed.union_iff.mp ha
    obtain ⟨_, _, _, hns⟩ := WellFormed.union_iff.mp hb
    exact .union hn (ih (hms _ hm) (hns n hn) heq)

theorem conforms_iff_alternatives : Conforms v t ↔ ∃ s ∈ t.alternatives, Conforms v s := by
  cases t with
  | union ms =>
    constructor
    · intro h
      cases h with
      | union hm hv => exact ⟨_, hm, hv⟩
    · rintro ⟨m, hm, hv⟩
      exact .union hm hv
  | _ => simp [alternatives]

theorem conforms_distinct_iff (htypes : ∀ t ∈ types, t.WellFormed) :
    (∃ s ∈ distinctAlternatives types, Conforms v s) ↔ ∃ t ∈ types, Conforms v t := by
  constructor
  · rintro ⟨s, hs, hv⟩
    obtain ⟨t, ht, hs⟩ := List.mem_flatMap.mp (mem_of_mem_eraseDups hs)
    exact ⟨t, ht, conforms_iff_alternatives.mpr ⟨s, hs, hv⟩⟩
  · rintro ⟨t, ht, hv⟩
    obtain ⟨s, hs, hv⟩ := conforms_iff_alternatives.mp hv
    -- the alternative may have been dropped, but then an equal one was kept
    obtain ⟨u, hu, rfl | heq⟩ := exists_kept_of_mem (List.mem_flatMap.mpr ⟨t, ht, hs⟩)
    · exact ⟨s, hu, hv⟩
    · have hswf := (wellFormed_of_mem_alternatives (htypes t ht) hs).1
      have huwf := (wellFormed_of_mem_distinct htypes hu).1
      exact ⟨u, hu, conforms_of_beq hswf huwf heq hv⟩

/-- A union of types has the values of all of them. -/
theorem conforms_oneOf_iff (hne : types ≠ []) (htypes : ∀ t ∈ types, t.WellFormed) :
    Conforms v (oneOf types) ↔ ∃ t ∈ types, Conforms v t := by
  rw [← conforms_distinct_iff htypes]
  rcases oneOf_cases types with ⟨hnil, _⟩ | ⟨t, hsingle, heq⟩ | ⟨_, heq⟩
  · exact absurd hnil (distinctAlternatives_ne_nil hne htypes)
  · simp [heq, hsingle]
  · rw [heq, conforms_iff_alternatives, alternatives]

end Ty

end SchemaInfer
