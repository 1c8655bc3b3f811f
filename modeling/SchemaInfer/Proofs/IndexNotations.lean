import SchemaInfer.Proofs.PathComposition
import SchemaInfer.Proofs.PathValues

/-!
# The two ways to write an index

An element of an array is selected by an index suffix or by a numeric name. A suffix takes one array off
the type where it stands, and nothing else: `descend?_index` and `Scope.resolve?_index` say this of a
segment and of a whole path with one more suffix. A numeric name is looked up like other names. On arrays
the two come to the same, whatever follows. They part where null is among the alternatives, since names
are looked up past null and suffixes are not, and where the digits are those of another script, which make
an index in a suffix only.
-/

namespace SchemaInfer

/-! ### One more suffix -/

namespace Segment

variable {digits cs : List Char} {seen : Nat}

theorem isDecimalDigit_bracket : Text.isDecimalDigit '[' = false := by decide

theorem IsIndex.notMem (h : IsIndex digits) {c : Char} (hc : Text.isDecimalDigit c = false) :
    c ∉ digits := by
  intro hmem
  rw [h.2 c hmem] at hc
  cases hc

/-- A suffix is read only after everything in front of it has been read. -/
theorem countIndexes?_concat (h : IsIndex digits) {cursor : Cursor} :
    countIndexes? cursor seen (cs ++ '[' :: (digits ++ [']'])) =
      (countIndexes? cursor seen cs).map (· + 1) := by
  induction cs generalizing cursor seen with
  | nil =>
    cases cursor with
    | outside =>
      have hone : countIndexes? .outside seen (suffixes [digits]) = some (seen + 1) :=
        countIndexes?_eq_some_iff.mpr ⟨[digits], rfl, List.forall_mem_singleton.mpr h, rfl⟩
      simpa [suffixes, countIndexes?] using hone
    | opened => simp [countIndexes?, isDecimalDigit_bracket]
    | digits => simp [countIndexes?, isDecimalDigit_bracket]
  | cons c cs ih =>
    cases cursor with
    | outside =>
      simp only [List.cons_append, countIndexes?]
      split
      · exact ih
      · rfl
    | opened =>
      simp only [List.cons_append, countIndexes?]
      split
      · exact ih
      · rfl
    | digits =>
      simp only [List.cons_append, countIndexes?]
      split
      · exact ih
      · split
        · exact ih
        · rfl

theorem takeWhile_concat (rest : List Char) :
    (cs ++ '[' :: rest).takeWhile (!isBracket ·) = cs.takeWhile (!isBracket ·) := by
  induction cs with
  | nil => rfl
  | cons c cs ih => simp only [List.cons_append, List.takeWhile_cons, ih]

theorem dropWhile_concat (rest : List Char) :
    (cs ++ '[' :: rest).dropWhile (!isBracket ·) = cs.dropWhile (!isBracket ·) ++ '[' :: rest := by
  induction cs with
  | nil => rfl
  | cons c cs ih =>
    simp only [List.cons_append, List.dropWhile_cons, ih]
    split <;> rfl

theorem ofChars?_concat (h : IsIndex digits) : ofChars? (cs ++ '[' :: (digits ++ [']'])) =
    (ofChars? cs).map fun s => { s with indexes := s.indexes + 1 } := by
  unfold ofChars?
  rw [takeWhile_concat, dropWhile_concat, countIndexes?_concat h, Option.map_map, Option.map_map]
  rfl

end Segment

namespace Ty

variable {t : Ty} {n : String} {segment digits : List Char}

theorem indexed?_succ (indexes : Nat) :
    t.indexed? (indexes + 1) = (t.indexed? indexes).bind (indexed? 1) := by
  induction indexes generalizing t with
  | zero => rfl
  | succ k ih =>
    cases t with
    | array t => exact ih
    | any => exact ih
    | _ => rfl

/-- A suffix takes one array off what the rest of its segment leads to. -/
theorem descend?_index (h : Segment.IsIndex digits) :
    t.descend? (segment ++ '[' :: (digits ++ [']'])) = (t.descend? segment).bind (indexed? 1) := by
  rw [descend?_eq_bind, descend?_eq_bind, Segment.ofChars?_concat h]
  cases Segment.ofChars? segment with
  | none => rfl
  | some s =>
    simp only [Option.map_some, Option.bind_some, Option.bind_assoc]
    congr 1
    funext selected
    exact indexed?_succ s.indexes

theorem descend?_suffix (h : Segment.IsIndex n.toList) :
    t.descend? ("[" ++ n ++ "]").toList = t.indexed? 1 := by
  have hsuffix : ("[" ++ n ++ "]").toList = [] ++ '[' :: (n.toList ++ [']']) := by simp
  rw [hsuffix, descend?_index h]
  rfl

/-- Decimal digits read as a name. -/
theorem descend?_digits (h : Segment.IsIndex n.toList) : t.descend? n.toList = t.select? n := by
  apply descend?_of_plain
  constructor
  · rintro rfl
    exact h.1 rfl
  · intro c hc
    constructor
    · rintro rfl
      exact h.notMem (by decide) hc
    · apply Bool.eq_false_iff.mpr
      intro hbracket
      rcases Bool.or_eq_true_iff.mp hbracket with heq | heq
      · exact h.notMem (by decide) (eq_of_beq heq ▸ hc)
      · exact h.notMem (by decide) (eq_of_beq heq ▸ hc)

end Ty

namespace Scope

variable {scope : Scope} {path n : String}

theorem exists_last_segment (path : String) : '.' ∉ path.toList ∨
    ∃ front segment : String, path = front ++ "." ++ segment ∧ '.' ∉ segment.toList := by
  by_cases hdot : '.' ∈ path.toList
  · right
    obtain ⟨after, before, heq, hafter⟩ := List.eq_append_cons_of_mem (List.mem_reverse.mpr hdot)
    refine ⟨String.ofList before.reverse, String.ofList after.reverse, ?_, by simpa using hafter⟩
    apply String.toList_inj.mp
    have hpath := congrArg List.reverse heq
    rw [List.reverse_reverse] at hpath
    simp [hpath]
  · exact Or.inl hdot

/-- A suffix at the end of a path takes one array off what the path leads to. -/
theorem resolve?_index (hscope : scope.BindsPlain) (h : Segment.IsIndex n.toList) :
    scope.resolve? (path ++ "[" ++ n ++ "]") = (scope.resolve? path).bind (Ty.indexed? 1) := by
  have hdigits : '.' ∉ n.toList := h.notMem (by decide)
  rcases exists_last_segment path with hdot | ⟨front, segment, rfl, hsegment⟩
  · have hchars : (path ++ "[" ++ n ++ "]").toList = path.toList ++ '[' :: (n.toList ++ [']']) := by
      simp
    have hsplit : Text.splitAt '.' path.toList = [path.toList] := Text.splitAt_of_notMem hdot
    have hsplit' : Text.splitAt '.' (path ++ "[" ++ n ++ "]").toList =
        [(path ++ "[" ++ n ++ "]").toList] := by
      apply Text.splitAt_of_notMem
      simp [hdot, hdigits]
    unfold resolve?
    rw [hsplit, hsplit']
    dsimp only
    rw [resolveIn?_of_plain hscope hsplit, resolveIn?_of_plain hscope hsplit', hchars,
      Segment.ofChars?_concat h]
    cases Segment.ofChars? path.toList with
    | none => rfl
    | some s =>
      have hstay : Ty.follow? [] = some := rfl
      simp only [Option.map_some, Option.bind_some, Option.bind_assoc, hstay]
      congr 1
      funext root
      rw [Ty.indexed?_succ, Option.bind_fun_some]
  · have heq : front ++ "." ++ segment ++ "[" ++ n ++ "]" =
        front ++ "." ++ (segment ++ "[" ++ n ++ "]") := by
      simp [String.append_assoc]
    have hsegment' : (segment ++ "[" ++ n ++ "]").toList =
        segment.toList ++ '[' :: (n.toList ++ [']']) := by
      simp
    rw [heq, resolve?_append hscope, resolve?_append hscope hsegment, hsegment']
    · rw [Option.bind_assoc]
      congr 1
      funext t
      exact Ty.descend?_index h
    · simp [hsegment, hdigits]

/-- Paths are resolved as in a scope that binds plain names only. -/
def ResolvesPlainly (scope : Scope) : Prop :=
  ∃ plain : Scope, plain.BindsPlain ∧ ∀ path, scope.resolve? path = plain.resolve? path

/-- The bindings for the properties of an input make no difference, also inside of other scopes. -/
theorem resolvesPlainly_ofInput {ty : Ty} {names : List String} (types : List Ty) (hty : ty.WellFormed)
    (hproperties : ∀ name ∈ Entries.keys ty.ownProperties, IsPlainName name)
    (hnames : ∀ name ∈ names, IsPlainName name) :
    ((Scope.ofInput ty).enterAll names types).ResolvesPlainly := by
  have hinput : (empty.bind inputName ty).BindsPlain :=
    List.forall_mem_singleton.mpr (List.forall_mem_singleton.mpr isPlainName_inputName)
  refine ⟨(empty.bind inputName ty).enterAll names types, hinput.enterAll hnames, ?_⟩
  intro path
  have hagree : AgreeOn [path] (Scope.ofInput ty) (empty.bind inputName ty) :=
    fun _ _ => resolve?_ofInput hty hproperties
  exact hagree.enterAll path (List.mem_singleton_self path)

end Scope

/-! ### Where the notations agree and where not -/

namespace Ty

variable {t : Ty} {n : String}

theorem select?_array_of_isNumeric (h : isNumeric n = true) : (array t).select? n = some t := by
  rw [select?, if_pos h]

theorem select?_array (h : isNumeric n = false) : (array t).select? n = t.select? n := by
  rw [select?, h]
  rfl

theorem select?_nullable_array {ms : List Ty} (hms : ms = [array t, null] ∨ ms = [null, array t]) :
    (union ms).select? n = ((array t).select? n).map orNull := by
  rcases hms with rfl | rfl <;> simp [select?, selections, isNull]

/-- **The two index notations agree on arrays** and not on nullable arrays. Below an array, a suffix and a
numeric segment lead to the same types, or both to none, whatever follows, and so do the two paths in any
scope. Below a nullable array the suffix leads nowhere, and the numeric segment to the elements together
with null. Digits of other scripts select an element in a suffix, and as a segment they are a name. -/
theorem index_notations_agree_on_arrays (hn : Segment.IsIndex n.toList) :
    (isNumeric n = true → ∀ t segments,
      (array t).follow? (("[" ++ n ++ "]").toList :: segments) =
        (array t).follow? (n.toList :: segments)) ∧
    (isNumeric n = true → ∀ scope path t, Scope.ResolvesPlainly scope →
      scope.resolve? path = some (array t) →
        scope.resolve? (path ++ "[" ++ n ++ "]") = scope.resolve? (path ++ "." ++ n) ∧
        ∀ rest, scope.resolve? (path ++ "[" ++ n ++ "]" ++ "." ++ rest) =
          scope.resolve? (path ++ "." ++ n ++ "." ++ rest)) ∧
    (∀ t ms segments, ms = [array t, null] ∨ ms = [null, array t] →
      (union ms).follow? (("[" ++ n ++ "]").toList :: segments) = none ∧
      (isNumeric n = true →
        (union ms).follow? (n.toList :: segments) = t.orNull.follow? segments)) ∧
    ∀ t, (array t).descend? ("[" ++ n ++ "]").toList = some t ∧
      (isNumeric n = false → (array t).descend? n.toList = t.select? n) := by
  refine ⟨?_, ?_, ?_, ?_⟩
  · intro hnumeric t segments
    rw [follow?, follow?, descend?_suffix hn, descend?_digits hn, select?_array_of_isNumeric hnumeric]
    rfl
  · rintro hnumeric scope path t ⟨plain, hplain, hsame⟩ hpath
    rw [hsame] at hpath
    have hsuffix : plain.resolve? (path ++ "[" ++ n ++ "]") = some t := by
      rw [Scope.resolve?_index hplain hn, hpath]
      rfl
    have hsegment : plain.resolve? (path ++ "." ++ n) = some t := by
      rw [Scope.resolve?_append hplain (hn.notMem (by decide)), hpath, Option.bind_some,
        descend?_digits hn, select?_array_of_isNumeric hnumeric]
    constructor
    · rw [hsame, hsame, hsuffix, hsegment]
    · intro rest
      rw [hsame, hsame, Scope.resolve?_append_path hplain, Scope.resolve?_append_path hplain, hsuffix,
        hsegment]
  · intro t ms segments hms
    rw [follow?, follow?, descend?_suffix hn, descend?_digits hn, select?_nullable_array hms]
    refine ⟨rfl, ?_⟩
    intro hnumeric
    rw [select?_array_of_isNumeric hnumeric]
    rfl
  · intro t
    rw [descend?_suffix hn, descend?_digits hn]
    exact ⟨rfl, select?_array⟩

/-- The lines of an order, below the bindings for its properties and the parameter of a lambda. -/
theorem index_notations_agree_on_arrays_of_lines :
    let line : Ty := .object [("qty", .mandatory integer)] false
    let order : Ty := .object [("lines", .mandatory (array line))] false
    let scope : Scope := (Scope.ofInput order).enterAll ["lines"] [string]
    Segment.IsIndex "12".toList ∧ isNumeric "12" = true ∧ scope.ResolvesPlainly ∧
      scope.resolve? "input.lines" = some (array line) ∧
      scope.resolve? "input.lines[12].qty" = some integer ∧
      scope.resolve? "input.lines.12.qty" = some integer := by
  intro line order scope
  have hn : Segment.IsIndex "12".toList := by decide
  have hnumeric : isNumeric "12" = true := by decide
  have hscope : scope.ResolvesPlainly :=
    Scope.resolvesPlainly_ofInput [string] (by decide) (by decide) (by decide)
  have hlines : scope.resolve? "input.lines" = some (array line) := rfl
  have hqty : scope.resolve? "input.lines[12].qty" = some integer := rfl
  refine ⟨hn, hnumeric, hscope, hlines, hqty, ?_⟩
  rw [← hqty]
  exact (((index_notations_agree_on_arrays hn).2.1 hnumeric scope "input.lines" _ hscope hlines).2
    "qty").symm

/-- Null among the alternatives ends the path at the suffix, but not at the numeric segment. -/
theorem index_notations_differ_on_nullable_array :
    let t : Ty := union [array string, null]
    t.WellFormed ∧ t.descend? "[0]".toList = none ∧
      t.descend? "0".toList = some (union [string, null]) := by
  intro t
  exact ⟨by decide, rfl, rfl⟩

end Ty

end SchemaInfer
