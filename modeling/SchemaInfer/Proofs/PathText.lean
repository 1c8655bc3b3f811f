import SchemaInfer.Path
import Mathlib.Data.List.TakeWhile

/-!
# The text of paths

A path is cut at its dots, and each piece is read as a segment. The results below say what these two
readings come to in terms of the text: cutting a path that was extended by a dot and a segment gives one
more piece, and what is read as a segment is exactly a name without brackets that is followed by index
suffixes, each a row of digits between brackets.
-/

namespace SchemaInfer

/-! ### Cutting at a separator -/

namespace Text

variable {separator : Char} {cs xs ys : List Char}

/-- The first piece is the text in front of the first separator. -/
theorem splitAt_eq_cons (separator : Char) (cs : List Char) :
    ∃ pieces, splitAt separator cs = cs.takeWhile (· != separator) :: pieces := by
  induction cs with
  | nil => exact ⟨[], rfl⟩
  | cons c cs ih =>
    rw [splitAt]
    by_cases hc : c = separator
    · rw [if_pos hc]
      exact ⟨splitAt separator cs, by simp [hc]⟩
    · obtain ⟨pieces, hpieces⟩ := ih
      rw [if_neg hc, hpieces]
      exact ⟨pieces, by simp [hc]⟩

theorem splitAt_append :
    splitAt separator (xs ++ separator :: ys) = splitAt separator xs ++ splitAt separator ys := by
  induction xs with
  | nil => simp [splitAt]
  | cons c xs ih =>
    rw [List.cons_append, splitAt, splitAt, ih]
    by_cases hc : c = separator
    · rw [if_pos hc, if_pos hc]
      rfl
    · obtain ⟨pieces, hpieces⟩ := splitAt_eq_cons separator xs
      rw [if_neg hc, if_neg hc, hpieces]
      rfl

theorem splitAt_of_notMem (h : separator ∉ cs) : splitAt separator cs = [cs] := by
  induction cs with
  | nil => rfl
  | cons c cs ih =>
    obtain ⟨hc, hcs⟩ := not_or.mp (mt List.mem_cons.mpr h)
    rw [splitAt, if_neg (Ne.symm hc), ih hcs]

theorem splitAt_append_of_notMem (h : separator ∉ ys) :
    splitAt separator (xs ++ separator :: ys) = splitAt separator xs ++ [ys] := by
  rw [splitAt_append, splitAt_of_notMem h]

end Text

/-! ### Segments -/

namespace Segment

variable {cs : List Char} {seen n : Nat}

/-- A row of decimal digits. -/
def IsIndex (digits : List Char) : Prop :=
  digits ≠ [] ∧ ∀ c ∈ digits, Text.isDecimalDigit c = true

instance : DecidablePred IsIndex := fun digits =>
  decidable_of_iff ((!digits.isEmpty && digits.all Text.isDecimalDigit) = true) (by simp [IsIndex])

/-- Index suffixes as text. -/
def suffixes (indexes : List (List Char)) : List Char :=
  indexes.flatMap fun digits => '[' :: (digits ++ [']'])

theorem suffixes_cons {digits : List Char} {indexes : List (List Char)} :
    suffixes (digits :: indexes) = '[' :: (digits ++ ']' :: suffixes indexes) := by
  simp [suffixes]

/-- The text is a name, in which no bracket stands, with index suffixes. -/
structure IsText (cs : List Char) (name : String) (indexes : List (List Char)) : Prop where
  eq_append : cs = name.toList ++ suffixes indexes
  name : ∀ c ∈ name.toList, isBracket c = false
  indexes : ∀ digits ∈ indexes, IsIndex digits

/-- The text of a path in front of its first dot. -/
def first (path : String) : List Char :=
  path.toList.takeWhile (· != '.')

theorem countIndexes?_outside_eq_some_iff : countIndexes? .outside seen cs = some n ↔
    (cs = [] ∧ n = seen) ∨ ∃ rest, cs = '[' :: rest ∧ countIndexes? .opened seen rest = some n := by
  cases cs with
  | nil => simp [countIndexes?, eq_comm]
  | cons c cs =>
    rw [countIndexes?]
    by_cases hc : c = '['
    · simp [hc]
    · simp [hc]

theorem countIndexes?_opened_eq_some_iff : countIndexes? .opened seen cs = some n ↔
    ∃ d rest, cs = d :: rest ∧ Text.isDecimalDigit d = true ∧
      countIndexes? .digits seen rest = some n := by
  cases cs with
  | nil => simp [countIndexes?]
  | cons c cs =>
    rw [countIndexes?]
    constructor
    · intro h
      split at h
      · rename_i hc
        exact ⟨c, cs, rfl, hc, h⟩
      · cases h
    · rintro ⟨d, rest, heq, hd, hrest⟩
      obtain ⟨rfl, rfl⟩ := List.cons.inj heq
      rw [if_pos hd]
      exact hrest

/-- More digits may follow, until the bracket is closed. -/
theorem countIndexes?_digits_eq_some_iff : countIndexes? .digits seen cs = some n ↔
    ∃ digits rest, cs = digits ++ ']' :: rest ∧ (∀ c ∈ digits, Text.isDecimalDigit c = true) ∧
      countIndexes? .outside (seen + 1) rest = some n := by
  constructor
  · intro h
    induction cs with
    | nil => cases h
    | cons c cs ih =>
      rw [countIndexes?] at h
      split at h
      · rename_i hc
        exact ⟨[], cs, by rw [hc]; rfl, List.forall_mem_nil _, h⟩
      · split at h
        · rename_i hc
          obtain ⟨digits, rest, rfl, hdigits, hrest⟩ := ih h
          exact ⟨c :: digits, rest, rfl, List.forall_mem_cons.mpr ⟨hc, hdigits⟩, hrest⟩
        · cases h
  · rintro ⟨digits, rest, rfl, hdigits, hrest⟩
    induction digits with
    | nil => simpa [countIndexes?] using hrest
    | cons d digits ih =>
      obtain ⟨hd, hdigits⟩ := List.forall_mem_cons.mp hdigits
      have hne : d ≠ ']' := by
        rintro rfl
        exact absurd hd (by decide)
      rw [List.cons_append, countIndexes?, if_neg hne, if_pos hd]
      exact ih hdigits

/-- The suffixes that are counted are the suffixes of the text. -/
theorem countIndexes?_eq_some_iff : countIndexes? .outside seen cs = some n ↔
    ∃ indexes, cs = suffixes indexes ∧ (∀ digits ∈ indexes, IsIndex digits) ∧
      n = seen + indexes.length := by
  constructor
  · intro h
    induction hlength : cs.length using Nat.strongRecOn generalizing cs seen with
    | _ length ih =>
    subst hlength
    rcases countIndexes?_outside_eq_some_iff.mp h with ⟨rfl, rfl⟩ | ⟨rest, rfl, hopened⟩
    · exact ⟨[], rfl, List.forall_mem_nil _, rfl⟩
    · obtain ⟨d, rest, rfl, hd, hdigits⟩ := countIndexes?_opened_eq_some_iff.mp hopened
      obtain ⟨digits, rest, rfl, hall, houtside⟩ := countIndexes?_digits_eq_some_iff.mp hdigits
      obtain ⟨indexes, rfl, hindexes, rfl⟩ := ih _ (by simp +arith) houtside rfl
      have hindex : IsIndex (d :: digits) :=
        ⟨List.cons_ne_nil _ _, List.forall_mem_cons.mpr ⟨hd, hall⟩⟩
      refine ⟨(d :: digits) :: indexes, ?_, List.forall_mem_cons.mpr ⟨hindex, hindexes⟩, by simp +arith⟩
      rw [suffixes_cons]
      rfl
  · rintro ⟨indexes, rfl, hindexes, rfl⟩
    induction indexes generalizing seen with
    | nil => rfl
    | cons digits indexes ih =>
      obtain ⟨⟨hne, hall⟩, hrest⟩ := List.forall_mem_cons.mp hindexes
      obtain ⟨d, digits, rfl⟩ := List.exists_cons_of_ne_nil hne
      obtain ⟨hd, hall⟩ := List.forall_mem_cons.mp hall
      have hcount : countIndexes? .outside (seen + 1) (suffixes indexes) =
          some (seen + (indexes.length + 1)) := by
        rw [ih hrest, Nat.add_right_comm, Nat.add_assoc]
      apply countIndexes?_outside_eq_some_iff.mpr
      refine Or.inr ⟨_, suffixes_cons, countIndexes?_opened_eq_some_iff.mpr ?_⟩
      refine ⟨d, _, rfl, hd, countIndexes?_digits_eq_some_iff.mpr ?_⟩
      exact ⟨digits, _, rfl, hall, hcount⟩

/-- What is read as a segment is a name with index suffixes, and nothing else is. -/
theorem ofChars?_eq_some_iff {s : Segment} : ofChars? cs = some s ↔
    ∃ indexes, IsText cs s.name indexes ∧ s.indexes = indexes.length := by
  unfold ofChars?
  constructor
  · intro h
    obtain ⟨n, hcount, rfl⟩ := Option.map_eq_some_iff.mp h
    obtain ⟨indexes, hsuffixes, hindexes, hlength⟩ := countIndexes?_eq_some_iff.mp hcount
    refine ⟨indexes, ⟨?_, ?_, hindexes⟩, by simpa using hlength⟩
    · rw [String.toList_ofList, ← hsuffixes, List.takeWhile_append_dropWhile]
    · intro c hc
      rw [String.toList_ofList] at hc
      simpa using List.mem_takeWhile_imp hc
  · rintro ⟨indexes, ⟨rfl, hname, hindexes⟩, hlength⟩
    have hplain : ∀ c ∈ s.name.toList, (!isBracket c) = true := by
      intro c hc
      rw [hname c hc, Bool.not_false]
    -- the first suffix starts with a bracket, so the name ends there
    have hstop : (suffixes indexes).takeWhile (!isBracket ·) = [] ∧
        (suffixes indexes).dropWhile (!isBracket ·) = suffixes indexes := by
      cases indexes with
      | nil => exact ⟨rfl, rfl⟩
      | cons digits indexes =>
        rw [suffixes_cons]
        exact ⟨rfl, rfl⟩
    rw [List.takeWhile_append_of_pos hplain, List.dropWhile_append_of_pos hplain, hstop.1, hstop.2,
      List.append_nil, String.ofList_toList]
    have hcount : countIndexes? .outside 0 (suffixes indexes) = some s.indexes :=
      countIndexes?_eq_some_iff.mpr ⟨indexes, rfl, hindexes, by rw [hlength, Nat.zero_add]⟩
    rw [hcount]
    rfl

theorem ofChars?_of_plain {name : String} (h : ∀ c ∈ name.toList, isBracket c = false) :
    ofChars? name.toList = some ⟨name, 0⟩ :=
  ofChars?_eq_some_iff.mpr ⟨[], ⟨by simp [suffixes], h, List.forall_mem_nil _⟩, rfl⟩

end Segment

end SchemaInfer
