import Augment.Text.Uppercase

/-!
# Names of accessors

The getter of a field `price` is `getPrice`, its setter is `setPrice` and the parameter of the
setter is `_price`.  Only the first character of the field name changes, to its full upper case;
nothing else is looked at, so `isReady` gives `getIsReady` and `_price` gives `get_price`.
-/

namespace Augment.Naming

/-- The name with its first character in upper case. -/
def capitalize (name : String) : String :=
  match name.toList with
  | [] => ""
  | first :: rest => String.ofList (Text.upper first ++ rest)

/-- The name of the getter of a field. -/
def getter (field : String) : String :=
  "get" ++ capitalize field

/-- The name of the setter of a field. -/
def setter (field : String) : String :=
  "set" ++ capitalize field

/-- The name of the parameter of the setter of a field.  The mark in front keeps it apart from the
field that the setter assigns. -/
def setterParam (field : String) : String :=
  "_" ++ field

/-- **A parameter never has the name of its field,** because it is longer. -/
theorem setterParam_ne (field : String) : setterParam field ≠ field := by
  intro h
  have := congrArg String.length h
  simp [setterParam] at this

end Augment.Naming
