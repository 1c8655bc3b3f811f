/-!
Ordered association lists.

Object properties, scopes, function libraries and JSON objects are all lists of named entries whose
order is part of what users see. A key is looked up by its first entry (`List.lookup`), and `insert`
keeps the position of a key that is already there.
-/

namespace SchemaInfer.Entries

variable {α : Type}

/-- Gives `key` the value `value`: in place if the key is there, at the end if it is not. -/
def insert (key : String) (value : α) : List (String × α) → List (String × α)
  | [] => [(key, value)]
  | (k, v) :: rest => if k = key then (k, value) :: rest else (k, v) :: insert key value rest

/-- Builds a list without repeated keys: a key keeps its first position and takes its last value. -/
def ofList (entries : List (String × α)) : List (String × α) :=
  entries.foldl (fun acc (k, v) => insert k v acc) []

/-- The keys in order. -/
def keys (entries : List (String × α)) : List String :=
  entries.map Prod.fst

/-- The values in order. -/
def values (entries : List (String × α)) : List α :=
  entries.map Prod.snd

/-- Whether some entry has this key. -/
def hasKey (key : String) (entries : List (String × α)) : Bool :=
  (entries.lookup key).isSome

/-! ### Look-up finds members -/

theorem mem_of_lookup {key : String} {value : α} :
    {entries : List (String × α)} → entries.lookup key = some value → (key, value) ∈ entries
  | [], h => by simp at h
  | (k, v) :: rest, h => by
    rw [List.lookup_cons] at h
    by_cases hk : key == k
    · have hv : v = value := by simpa [hk] using h
      have hkey : key = k := by simpa using hk
      subst hkey hv
      exact List.mem_cons_self
    · have hrest : rest.lookup key = some value := by simpa [hk] using h
      exact List.mem_cons_of_mem _ (mem_of_lookup hrest)

/-- A value found by its key is smaller than the list it was found in. -/
theorem sizeOf_lt_of_lookup [SizeOf α] {key : String} {value : α} {entries : List (String × α)}
    (h : entries.lookup key = some value) : sizeOf value < sizeOf entries := by
  have hmem := List.sizeOf_lt_of_mem (mem_of_lookup h)
  have hpair : sizeOf (key, value) = 1 + sizeOf key + sizeOf value := rfl
  omega

end SchemaInfer.Entries
