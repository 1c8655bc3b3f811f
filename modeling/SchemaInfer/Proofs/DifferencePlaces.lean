import SchemaInfer.Proofs.Differences
import SchemaInfer.Proofs.PathText
import Mathlib.Data.Set.Insert

/-!
# The places of differences

A difference of two values names its place by the text of a pointer. Read back, that text leads on each
side to what the difference gives for it: the part that stands there, or nothing. The two sides are never
equal, and no two differences of one comparison have the same place.

Places are compared by their first tokens. A comparison of objects or arrays goes through keys or
positions, none of them twice, and puts the token in front of what it finds below.
-/

namespace SchemaInfer

namespace Json

/-! ### The text of a pointer -/

namespace Pointer

variable {c : Char}

theorem unescape_cons (hc : c ≠ '~') (rest : List Char) :
    unescape (c :: rest) = c :: unescape rest := by
  rw [unescape]
  · rintro _ rfl
    exact absurd rfl hc
  · rintro _ rfl
    exact absurd rfl hc

theorem unescape_escapeChar_append (c : Char) (rest : List Char) :
    unescape (escapeChar c ++ rest) = c :: unescape rest := by
  by_cases htilde : c = '~'
  · subst htilde
    rfl
  · by_cases hslash : c = '/'
    · subst hslash
      rfl
    · simp [escapeChar, htilde, hslash, unescape_cons]

theorem unescape_escape (token : String) : String.ofList (unescape (escape token).toList) = token := by
  have hchars : ∀ cs : List Char, unescape (cs.flatMap escapeChar) = cs := by
    intro cs
    induction cs with
    | nil => rfl
    | cons c cs ih => rw [List.flatMap_cons, unescape_escapeChar_append, ih]
  simp [escape, hchars]

/-- An escaped token has no slash in it, so the slashes of a text are those in front of its tokens. -/
theorem slash_notMem_escape (token : String) : '/' ∉ (escape token).toList := by
  have hchar : ∀ c, '/' ∉ escapeChar c := by
    intro c
    by_cases htilde : c = '~'
    · simp [escapeChar, htilde]
    · by_cases hslash : c = '/'
      · simp [escapeChar, hslash]
      · simpa [escapeChar, htilde, hslash] using Ne.symm hslash
  simp [escape, hchar]

theorem toList_text_cons (token : String) (pointer : Pointer) :
    (text (token :: pointer)).toList = '/' :: ((escape token).toList ++ (text pointer).toList) := by
  simp [text]

theorem splitAt_text (token : String) (pointer : Pointer) :
    Text.splitAt '/' ((escape token).toList ++ (text pointer).toList) =
      (token :: pointer).map fun token => (escape token).toList := by
  induction pointer generalizing token with
  | nil =>
    have hempty : (text []).toList = [] := rfl
    rw [hempty, List.append_nil, Text.splitAt_of_notMem (slash_notMem_escape token)]
    rfl
  | cons next pointer ih =>
    rw [toList_text_cons, Text.splitAt_append, Text.splitAt_of_notMem (slash_notMem_escape token), ih]
    rfl

@[simp]
theorem ofText?_text (pointer : Pointer) : ofText? (text pointer) = some pointer := by
  cases pointer with
  | nil => rfl
  | cons token pointer =>
    unfold ofText?
    rw [toList_text_cons]
    simp only [splitAt_text, List.map_map, Option.some.injEq]
    exact (List.map_congr_left fun token _ => unescape_escape token).trans (List.map_id _)

theorem text_injective {p q : Pointer} (h : text p = text q) : p = q := by
  have hread := congrArg ofText? h
  rw [ofText?_text, ofText?_text] at hread
  exact Option.some.inj hread

end Pointer

/-! ### Indexes -/

theorem isDigit_iff {c : Char} : c.isDigit = true ↔ '0' ≤ c ∧ c ≤ '9' := by
  simp [Char.isDigit, Char.le_def]

/-- No number but zero is written with a leading zero. -/
theorem head?_toDigits_ne_zero {n : Nat} (h : n ≠ 0) : (Nat.toDigits 10 n).head? ≠ some '0' := by
  have hdigit : ∀ d < 10, d ≠ 0 → Nat.digitChar d ≠ '0' := by decide
  induction n using Nat.strongRecOn with
  | ind n ih =>
    by_cases hlt : n < 10
    · rw [Nat.toDigits_of_lt_base hlt]
      simpa using hdigit n hlt h
    · rw [Nat.toDigits_of_base_le (by decide) (Nat.le_of_not_lt hlt), List.head?_append,
        List.head?_eq_some_head Nat.toDigits_ne_nil]
      have hfirst := ih (n / 10) (by omega) (by omega)
      rwa [List.head?_eq_some_head Nat.toDigits_ne_nil] at hfirst

theorem index?_toString (n : Nat) : index? (toString n) = some n := by
  have htext : (toString n).toList = Nat.toDigits 10 n := by
    rw [Nat.toString_eq_ofList_toDigits, String.toList_ofList]
  have hdigits : ((Nat.toDigits 10 n).all fun c => decide ('0' ≤ c) && decide (c ≤ '9')) = true := by
    rw [List.all_eq_true]
    intro c hc
    simpa using isDigit_iff.mp (Nat.isDigit_of_mem_toDigits (by decide) (by decide) hc)
  have hvalue : (Nat.toDigits 10 n).foldl (fun n c => n * 10 + (c.toNat - '0'.toNat)) 0 = n := by
    have h := @Nat.ofDigitChars_ten_toDigits n
    rw [Nat.ofDigitChars_eq_foldl] at h
    simpa only [Nat.mul_comm] using h
  unfold index?
  rw [htext]
  by_cases hzero : n = 0
  · subst hzero
    rfl
  · have hhead := head?_toDigits_ne_zero hzero
    split
    · exact absurd ‹_› Nat.toDigits_ne_nil
    · simp_all
    · simp_all
    · rw [if_pos hdigits, hvalue]

theorem child?_array (items : List Json) (i : Nat) :
    (array items).child? (toString i) = items[i]? := by
  rw [child?, index?_toString, Option.bind_some]

end Json

/-! ### Differences of parts -/

namespace Difference

variable {keyword : Option String} {token : String} {e a part part' : Json} {d : Difference}
  {ds ds' : List Difference} {tokens tokens' : Set String}

/-- Whether what stands at a place is equal on both sides; nothing is equal to nothing only. -/
def sameSides : Option Json → Option Json → Bool
  | some e, some a => e.same a
  | none, none => true
  | some _, none | none, some _ => false

/-- The difference gives what stands at its place in either value, and that is not equal. -/
structure IsAt (e a : Json) (pointer : Json.Pointer) (d : Difference) : Prop where
  place : d.place = .part pointer
  expected : e.resolve? pointer = d.expected
  actual : a.resolve? pointer = d.actual
  differ : sameSides d.expected d.actual = false

theorem IsAt.changed (h : e.same a = false) : IsAt e a [] (changed e a) where
  place := rfl
  expected := rfl
  actual := rfl
  differ := h

theorem IsAt.missing (he : e.child? token = some part) (ha : a.child? token = none) :
    IsAt e a [token] (missing token part) where
  place := rfl
  expected := by simp [Json.resolve?, he, Difference.missing]
  actual := by simp [Json.resolve?, ha, Difference.missing]
  differ := rfl

theorem IsAt.unexpected (he : e.child? token = none) (ha : a.child? token = some part) :
    IsAt e a [token] (unexpected token part) where
  place := rfl
  expected := by simp [Json.resolve?, he, Difference.unexpected]
  actual := by simp [Json.resolve?, ha, Difference.unexpected]
  differ := rfl

theorem within_of_place {pointer : Json.Pointer} (h : d.place = .part pointer) (token : String) :
    d.within token = { d with place := .part (token :: pointer) } := by
  rw [Difference.within, h]

/-- A difference of two parts is one of the values that they are parts of. -/
theorem IsAt.within {pointer : Json.Pointer} (he : e.child? token = some part)
    (ha : a.child? token = some part') (h : IsAt part part' pointer d) :
    IsAt e a (token :: pointer) (d.within token) := by
  rw [within_of_place h.place]
  exact
    { place := rfl
      expected := by rw [Json.resolve?, he, Option.bind_some, h.expected]
      actual := by rw [Json.resolve?, ha, Option.bind_some, h.actual]
      differ := h.differ }

/-! ### Comparisons -/

/-- What a comparison of two values reports: differences of theirs, no two of them at one place. -/
structure Reports (e a : Json) (ds : List Difference) : Prop where
  isAt : ∀ d ∈ ds, ∃ pointer, IsAt e a pointer d
  nodup : (ds.map place).Nodup

/-- What is reported below some keys or positions of two values. -/
structure ReportsBelow (e a : Json) (tokens : Set String) (ds : List Difference) : Prop
    extends Reports e a ds where
  below : ∀ d ∈ ds, ∃ token ∈ tokens, ∃ pointer, d.place = .part (token :: pointer)

namespace ReportsBelow

theorem nil : ReportsBelow e a tokens [] where
  isAt := List.forall_mem_nil _
  nodup := List.nodup_nil
  below := List.forall_mem_nil _

theorem mono (h : ReportsBelow e a tokens ds) (hsub : tokens ⊆ tokens') :
    ReportsBelow e a tokens' ds where
  isAt := h.isAt
  nodup := h.nodup
  below := by
    intro d hd
    obtain ⟨token, htoken, hplace⟩ := h.below d hd
    exact ⟨token, hsub htoken, hplace⟩

theorem append (h : ReportsBelow e a tokens ds) (h' : ReportsBelow e a tokens' ds')
    (hdisjoint : ∀ token ∈ tokens, token ∉ tokens') :
    ReportsBelow e a (tokens ∪ tokens') (ds ++ ds') where
  isAt := List.forall_mem_append.mpr ⟨h.isAt, h'.isAt⟩
  nodup := by
    rw [List.map_append]
    refine h.nodup.append h'.nodup ?_
    intro place hleft hright
    obtain ⟨d, hd, rfl⟩ := List.mem_map.mp hleft
    obtain ⟨d', hd', hplaces⟩ := List.mem_map.mp hright
    obtain ⟨token, htoken, pointer, hplace⟩ := h.below d hd
    obtain ⟨token', htoken', pointer', hplace'⟩ := h'.below d' hd'
    rw [hplace, hplace'] at hplaces
    obtain ⟨rfl, _⟩ := List.cons.inj (Place.part.inj hplaces)
    exact hdisjoint _ htoken htoken'
  below := by
    refine List.forall_mem_append.mpr ⟨?_, ?_⟩
    · exact (h.mono Set.subset_union_left).below
    · exact (h'.mono Set.subset_union_right).below

theorem of_isAt (h : IsAt e a [token] d) : ReportsBelow e a {token} [d] where
  isAt := List.forall_mem_singleton.mpr ⟨_, h⟩
  nodup := List.nodup_singleton _
  below := List.forall_mem_singleton.mpr ⟨token, Set.mem_singleton _, [], h.place⟩

theorem within (he : e.child? token = some part) (ha : a.child? token = some part')
    (h : Reports part part' ds) : ReportsBelow e a {token} (ds.map (within token)) where
  isAt := by
    refine List.forall_mem_map.mpr fun d hd => ?_
    obtain ⟨pointer, hat⟩ := h.isAt d hd
    exact ⟨token :: pointer, hat.within he ha⟩
  nodup := by
    rw [List.map_map]
    refine h.nodup.of_map.map_on fun d hd d' hd' heq => ?_
    obtain ⟨pointer, hat⟩ := h.isAt d hd
    obtain ⟨pointer', hat'⟩ := h.isAt d' hd'
    have hplaces := (hat.within he ha).place.symm.trans (heq.trans (hat'.within he ha).place)
    obtain ⟨_, rfl⟩ := List.cons.inj (Place.part.inj hplaces)
    exact List.inj_on_of_nodup_map h.nodup hd hd' (hat.place.trans hat'.place.symm)
  below := by
    refine List.forall_mem_map.mpr fun d hd => ?_
    obtain ⟨pointer, hat⟩ := h.isAt d hd
    exact ⟨token, Set.mem_singleton _, pointer, (hat.within he ha).place⟩

end ReportsBelow

/-! ### Objects -/

variable {es as rest : List (String × Json)}

theorem ReportsBelow.cons_key (h : ReportsBelow e a {token} ds)
    (h' : ReportsBelow e a {key | key ∈ Entries.keys rest} ds') (hfresh : token ∉ Entries.keys rest) :
    ReportsBelow e a {key | key ∈ Entries.keys ((token, part) :: rest)} (ds ++ ds') := by
  refine (h.append h' ?_).mono ?_
  · rintro key rfl
    exact hfresh
  · rintro key (rfl | hkey)
    · exact List.mem_cons_self
    · exact List.mem_cons_of_mem _ hkey

theorem reportsBelow_ofEntries (hkeys : (Entries.keys rest).Nodup)
    (hparts : ∀ key part, (key, part) ∈ rest → es.lookup key = some part ∧
      ∀ part', as.lookup key = some part' → Reports part part' (ofJson (some key) part part')) :
    ReportsBelow (.object es) (.object as) {key | key ∈ Entries.keys rest} (ofEntries rest as) := by
  induction rest with
  | nil => exact .nil
  | cons entry rest ih =>
    obtain ⟨key, part⟩ := entry
    obtain ⟨hfresh, hrest⟩ := List.nodup_cons.mp hkeys
    obtain ⟨⟨hpart, hreports⟩, hparts⟩ := Entries.forall_mem_cons_iff.mp hparts
    rw [ofEntries]
    refine ReportsBelow.cons_key ?_ (ih hrest hparts) hfresh
    cases hlookup : as.lookup key with
    | none => exact .of_isAt (.missing hpart hlookup)
    | some part' => exact .within hpart hlookup (hreports part' hlookup)

theorem reportsBelow_unexpected (hkeys : (Entries.keys rest).Nodup)
    (hparts : ∀ key part, (key, part) ∈ rest → es.lookup key = none ∧ as.lookup key = some part) :
    ReportsBelow (.object es) (.object as) {key | key ∈ Entries.keys rest}
      (rest.map fun (key, part) => unexpected key part) := by
  induction rest with
  | nil => exact .nil
  | cons entry rest ih =>
    obtain ⟨key, part⟩ := entry
    obtain ⟨hfresh, hrest⟩ := List.nodup_cons.mp hkeys
    obtain ⟨⟨hnone, hsome⟩, hparts⟩ := Entries.forall_mem_cons_iff.mp hparts
    have hfirst : ReportsBelow (.object es) (.object as) {key} [unexpected key part] :=
      .of_isAt (.unexpected hnone hsome)
    exact hfirst.cons_key (ih hrest hparts) hfresh

theorem lookup_of_unexpected (has : (Entries.keys as).Nodup) {key : String}
    (h : (key, part) ∈ as.filter fun (key, _) => !Entries.hasKey key es) :
    es.lookup key = none ∧ as.lookup key = some part := by
  obtain ⟨hmem, hnew⟩ := List.mem_filter.mp h
  refine ⟨?_, (Entries.lookup_eq_some_iff_mem has).mpr hmem⟩
  rw [Entries.lookup_eq_none_iff, ← Entries.hasKey_iff]
  simpa using hnew

theorem reports_object (hes : (Entries.keys es).Nodup) (has : (Entries.keys as).Nodup)
    (hparts : ∀ key part, (key, part) ∈ es →
      ∀ part', as.lookup key = some part' → Reports part part' (ofJson (some key) part part')) :
    Reports (.object es) (.object as) (ofJson keyword (.object es) (.object as)) := by
  rw [ofJson]
  have hexpected : ReportsBelow (.object es) (.object as) {key | key ∈ Entries.keys es}
      (ofEntries es as) := by
    refine reportsBelow_ofEntries hes fun key part hmem => ⟨?_, hparts key part hmem⟩
    exact (Entries.lookup_eq_some_iff_mem hes).mpr hmem
  refine (hexpected.append (reportsBelow_unexpected ?_ fun key part => ?_) ?_).toReports
  · exact has.sublist (List.filter_sublist.map _)
  · exact lookup_of_unexpected has
  · intro key hkey hkey'
    obtain ⟨⟨_, part⟩, hmem, rfl⟩ := List.mem_map.mp hkey'
    exact Entries.lookup_eq_none_iff.mp (lookup_of_unexpected has hmem).1 hkey

/-! ### Arrays -/

variable {xs ys : List Json} {position : Nat}

/-- The tokens of the positions from one on. -/
def indexesFrom (position : Nat) : Set String :=
  {token | ∃ i, position ≤ i ∧ toString i = token}

theorem ReportsBelow.cons_index (h : ReportsBelow e a {toString position} ds)
    (h' : ReportsBelow e a (indexesFrom (position + 1)) ds') :
    ReportsBelow e a (indexesFrom position) (ds ++ ds') := by
  refine (h.append h' ?_).mono ?_
  · rintro token rfl ⟨i, hi, heq⟩
    have hread := congrArg Json.index? heq
    rw [Json.index?_toString, Json.index?_toString] at hread
    have heq := Option.some.inj hread
    omega
  · rintro token (rfl | ⟨i, hi, rfl⟩)
    · exact ⟨position, Nat.le_refl _, rfl⟩
    · exact ⟨i, Nat.le_of_succ_le hi, rfl⟩

theorem reportsBelow_beyond {report : String → Json → Difference} {rest : List Json}
    (h : ∀ i part, rest[i]? = some part →
      IsAt e a [toString (position + i)] (report (toString (position + i)) part)) :
    ReportsBelow e a (indexesFrom position) (beyond report position rest) := by
  induction rest generalizing position with
  | nil => exact .nil
  | cons part rest ih =>
    have hfirst := ReportsBelow.of_isAt (h 0 part rfl)
    refine hfirst.cons_index (ih fun i part hpart => ?_)
    rw [Nat.add_right_comm]
    exact h (i + 1) part hpart

/-- What two arrays still have from a position on is what the comparison has left. -/
theorem reportsBelow_ofItems {restx resty : List Json} (hx : ∀ i, xs[position + i]? = restx[i]?)
    (hy : ∀ i, ys[position + i]? = resty[i]?)
    (hparts : ∀ part ∈ restx, ∀ part' ∈ resty, Reports part part' (ofJson none part part')) :
    ReportsBelow (.array xs) (.array ys) (indexesFrom position) (ofItems position restx resty) := by
  induction restx generalizing position resty with
  | nil =>
    rw [ofItems]
    refine reportsBelow_beyond fun i part hpart => .unexpected ?_ ?_
    · rw [Json.child?_array, hx]
      rfl
    · rw [Json.child?_array, hy, hpart]
  | cons part restx ih =>
    cases resty with
    | nil =>
      rw [ofItems]
      refine reportsBelow_beyond fun i part hpart => .missing ?_ ?_
      · rw [Json.child?_array, hx, hpart]
      · rw [Json.child?_array, hy]
        rfl
    | cons part' resty =>
      have hfirst : ReportsBelow (.array xs) (.array ys) {toString position}
          ((ofJson none part part').map (within (toString position))) := by
        refine .within ?_ ?_ (hparts part List.mem_cons_self part' List.mem_cons_self)
        · exact (Json.child?_array xs position).trans (hx 0)
        · exact (Json.child?_array ys position).trans (hy 0)
      rw [ofItems]
      refine hfirst.cons_index (ih (fun i => ?_) (fun i => ?_) fun part hpart part' hpart' => ?_)
      · rw [Nat.add_right_comm]
        exact hx (i + 1)
      · rw [Nat.add_right_comm]
        exact hy (i + 1)
      · exact hparts part (List.mem_cons_of_mem _ hpart) part' (List.mem_cons_of_mem _ hpart')

theorem reports_changed (h : e.same a = false) : Reports e a [changed e a] where
  isAt := List.forall_mem_singleton.mpr ⟨[], .changed h⟩
  nodup := List.nodup_singleton _

theorem reports_nil : Reports e a [] where
  isAt := List.forall_mem_nil _
  nodup := List.nodup_nil

theorem reports_array
    (hparts : ∀ part ∈ xs, ∀ part' ∈ ys, Reports part part' (ofJson none part part')) :
    Reports (.array xs) (.array ys) (ofJson keyword (.array xs) (.array ys)) := by
  rw [ofJson]
  split
  · split
    · exact reports_nil
    · rename_i hmembers
      refine reports_changed (Bool.eq_false_iff.mpr fun hsame => hmembers ?_)
      exact sameMembers_of_forall₂ (Json.same_array_iff.mp hsame)
  · refine (reportsBelow_ofItems (fun i => ?_) (fun i => ?_) hparts).toReports
    · rw [Nat.zero_add]
    · rw [Nat.zero_add]

/-! ### Values -/

theorem reports_ofJson (he : e.DistinctKeys) (ha : a.DistinctKeys) :
    Reports e a (ofJson keyword e a) := by
  have hplain : ∀ {e a : Json}, Reports e a (if e.same a then [] else [changed e a]) := by
    intro e a
    split
    · exact reports_nil
    · exact reports_changed (Bool.eq_false_iff.mpr ‹_›)
  induction e generalizing keyword a with
  | null | bool _ | int _ | float _ | string _ => exact hplain
  | array xs ih =>
    cases a with
    | array ys =>
      refine reports_array fun part hpart part' hpart' => ih part hpart ?_ ?_
      · exact Json.DistinctKeys.array_iff.mp he part hpart
      · exact Json.DistinctKeys.array_iff.mp ha part' hpart'
    | _ => exact hplain
  | object es ih =>
    cases a with
    | object as =>
      obtain ⟨hes, hesparts⟩ := Json.DistinctKeys.object_iff.mp he
      obtain ⟨has, hasparts⟩ := Json.DistinctKeys.object_iff.mp ha
      refine reports_object hes has fun key part hpart part' hpart' => ?_
      exact ih key part hpart (hesparts key part hpart) (hasparts.lookup hpart')
    | _ => exact hplain

/-- Every difference of two values is at the place that its text names, and no place is named twice. -/
theorem ofJson_places_resolve (e a : Json) (he : e.DistinctKeys) (ha : a.DistinctKeys) :
    (∀ d ∈ ofJson none e a, ∃ pointer,
      Json.Pointer.ofText? d.place.text = some pointer ∧
        e.resolve? pointer = d.expected ∧ a.resolve? pointer = d.actual ∧
          sameSides d.expected d.actual = false) ∧
      ((ofJson none e a).map fun d => d.place.text).Nodup := by
  have hreports : Reports e a (ofJson none e a) := reports_ofJson he ha
  constructor
  · intro d hd
    obtain ⟨pointer, hat⟩ := hreports.isAt d hd
    refine ⟨pointer, ?_, hat.expected, hat.actual, hat.differ⟩
    rw [hat.place, Place.text, Json.Pointer.ofText?_text]
  · refine hreports.nodup.of_map.map_on fun d hd d' hd' heq => ?_
    obtain ⟨pointer, hat⟩ := hreports.isAt d hd
    obtain ⟨pointer', hat'⟩ := hreports.isAt d' hd'
    rw [hat.place, hat'.place] at heq
    obtain rfl := Json.Pointer.text_injective heq
    exact List.inj_on_of_nodup_map hreports.nodup hd hd' (hat.place.trans hat'.place.symm)

/-- Keys with a slash and a tilde, an empty key, an item beyond the end of the other array, and a key
that reads like an index. -/
theorem ofJson_places_resolve_of_escaped_keys :
    let e := Json.object
      [("a/b", .array [.int 1, .int 2]), ("m~n", .object [("", .bool true)]), ("required", .null)]
    let a := Json.object
      [("0", .null), ("m~n", .object [("", .bool false)]), ("a/b", .array [.int 1]),
        ("required", .null)]
    (e.DistinctKeys ∧ a.DistinctKeys) ∧
      ((ofJson none e a).map fun d => d.place.text) = ["/a~1b/1", "/m~0n/", "/0"] ∧
        ((ofJson none e a).map fun d => d.place.text).Nodup ∧
          ∀ d ∈ ofJson none e a, ∃ pointer,
            Json.Pointer.ofText? d.place.text = some pointer ∧
              e.resolve? pointer = d.expected ∧ a.resolve? pointer = d.actual ∧
                sameSides d.expected d.actual = false := by
  intro e a
  have he : e.DistinctKeys := by decide
  have ha : a.DistinctKeys := by decide
  obtain ⟨hplaces, hnodup⟩ := ofJson_places_resolve e a he ha
  exact ⟨⟨he, ha⟩, by decide +kernel, hnodup, hplaces⟩

end Difference

end SchemaInfer
