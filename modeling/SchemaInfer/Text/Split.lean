import SchemaInfer.Text.CharClass

/-!
Cutting text into pieces: at a separator, at line ends, and at blanks.
-/

namespace SchemaInfer.Text

/-- The pieces of a text between the separators; there is always one more piece than separators. -/
def splitAt (separator : Char) : List Char → List (List Char)
  | [] => [[]]
  | c :: cs =>
    if c = separator then [] :: splitAt separator cs
    else
      match splitAt separator cs with
      | [] => [[c]]
      | piece :: pieces => (c :: piece) :: pieces

/-- Cuts a text at the first separator, which belongs to neither part. -/
def cutAt? (separator : Char) : List Char → Option (List Char × List Char)
  | [] => none
  | c :: cs =>
    if c = separator then some ([], cs)
    else (cutAt? separator cs).map fun (before, after) => (c :: before, after)

theorem length_lt_of_cutAt? {separator : Char} :
    {cs before after : List Char} → cutAt? separator cs = some (before, after) →
      after.length < cs.length
  | [], _, _, h => by simp [cutAt?] at h
  | c :: cs, before, after, h => by
    rw [cutAt?] at h
    split at h
    · simp_all
    · obtain ⟨⟨b, a⟩, hcut, heq⟩ := Option.map_eq_some_iff.1 h
      have := length_lt_of_cutAt? hcut
      simp_all
      omega

/-- Cuts a text at the last separator. -/
def cutAtLast? (separator : Char) (cs : List Char) : Option (List Char × List Char) :=
  (cutAt? separator cs.reverse).map fun (after, before) => (before.reverse, after.reverse)

/-- A line without the carriage return in front of its end. -/
def dropReturn (line : List Char) : List Char :=
  match line.reverse with
  | '\r' :: rest => rest.reverse
  | _ => line

/-- The lines of a text. A last line is one only if it is not empty. -/
def lines (cs : List Char) : List (List Char) :=
  let pieces := splitAt '\n' cs
  let ended := pieces.dropLast.map dropReturn
  match pieces.getLast? with
  | some (c :: last) => ended ++ [c :: last]
  | _ => ended

/-- The pieces of a text between blanks, none of them empty. -/
def words : List Char → List (List Char)
  | [] => []
  | c :: cs =>
    if isBlank c then words cs
    else
      match cs with
      | [] => [[c]]
      | d :: _ =>
        if isBlank d then [c] :: words cs
        else
          match words cs with
          | [] => [[c]]
          | word :: more => (c :: word) :: more

end SchemaInfer.Text
