import Mathlib.Data.List.Basic

/-!
# Header lists

The headers of a Fetch request.  A name is read without regard to the case of ASCII letters, and a
header that is given several times is read as one, with its values in order.

## Main results

- `get_set`: what is set is read alone, and under its own name only.
-/

/-- Names in lower case, in the order they were appended. -/
abbrev Headers := List (String × String)

namespace Headers

def values (headers : Headers) (name : String) : List String :=
  (headers.filter (·.1 = name.toLower)).map (·.2)

def get (headers : Headers) (name : String) : Option String :=
  if headers.values name = [] then none else some (", ".intercalate (headers.values name))

/-- The first header of a name is replaced, and the others are removed. -/
def replace (name value : String) : Headers → Headers
  | [] => [(name, value)]
  | header :: headers =>
    if header.1 = name then (name, value) :: headers.filter (·.1 ≠ name)
    else header :: replace name value headers

def set (headers : Headers) (name value : String) : Headers := replace name.toLower value headers

variable {headers : Headers} {name other value : String}

theorem filter_replace_self : (replace name value headers).filter (·.1 = name) = [(name, value)] := by
  induction headers with
  | nil => simp [replace]
  | cons header headers ih =>
    unfold replace
    split
    · rw [List.filter_cons_of_pos (by simp), List.filter_filter]
      simp
    · rename_i hne
      rw [List.filter_cons_of_neg (by simpa using hne), ih]

theorem filter_replace_of_ne (h : other ≠ name) :
    (replace name value headers).filter (·.1 = other) = headers.filter (·.1 = other) := by
  induction headers with
  | nil => simp [replace, h.symm]
  | cons header headers ih =>
    unfold replace
    split
    · rename_i heq
      rw [List.filter_cons_of_neg (by simpa using h.symm),
        List.filter_cons_of_neg (by simpa [heq] using h.symm), List.filter_filter]
      refine List.filter_congr fun a _ ↦ ?_
      by_cases ha : a.1 = other
      · simp [ha, h]
      · simp [ha]
    · rw [List.filter_cons, List.filter_cons, ih]

theorem get_set (headers : Headers) (name other value : String) : (headers.set name value).get other =
    if other.toLower = name.toLower then some value else headers.get other := by
  unfold get values set
  by_cases heq : other.toLower = name.toLower
  · rw [if_pos heq, heq, filter_replace_self]
    simp
  · rw [if_neg heq, filter_replace_of_ne heq]

end Headers
