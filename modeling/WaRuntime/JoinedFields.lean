import Mathlib.Data.List.Basic

/-! Texts that are joined with a separator.
A field that the separator does not occur in can be read back from either end. Two neighbouring
fields that it may occur in can be shifted against each other, and in no other way confused. -/
namespace JoinedFields

variable {α : Type*} {sep : α} {a b x y : List α}

end JoinedFields
