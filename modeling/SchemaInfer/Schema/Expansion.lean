import SchemaInfer.Schema.Error

/-!
Expanding named definitions.

A schema may refer to definitions by name, and types are finite trees, so a definition cannot be expanded
inside of its own expansion. The names that may still be expanded are kept in a list: expanding one takes
it off the list, and a name that is not on it is being expanded already. The list gets shorter on the
way down, which is why expansion ends.
-/

namespace SchemaInfer.Expansion

/-- The names that may be expanded inside of the expansion of `name`. -/
def without (name : String) (available : List String) : List String :=
  available.filter fun other => other != name

theorem length_without_lt {name : String} {available : List String} (h : name ∈ available) :
    (without name available).length < available.length := by
  refine List.length_filter_lt_length_iff_exists.2 ⟨name, h, ?_⟩
  simp

/-- Expands a name: `expand` gets the names that may be expanded from there on. -/
def expanding {α : Type} (name : String) (available : List String)
    (expand : (rest : List String) → rest.length < available.length → Except ImportError α) :
    Except ImportError α :=
  if h : name ∈ available then expand (without name available) (length_without_lt h)
  else .error (.recursiveReference name)

end SchemaInfer.Expansion
