/-
  Conversions of a column's type in place.

  Old versions of the database can change the type of a column to one that every value of the old
  type is a value of; `isConvertible_of_keyword_eq` : a type can always be changed to itself.
  `Inconvertible` says when a change of type cannot be made in place.
-/
import AlterScript.Text.Blank

namespace AlterScript

namespace CqlType

/-- The types that the values of a type are read as without being written anew. -/
def conversions : List (String × List String) :=
  [("ascii", ["text", "varchar", "blob"]),
    ("bigint", ["timestamp", "varint", "blob"]),
    ("int", ["varint", "blob"]),
    ("text", ["text", "varchar", "blob"]),
    ("varchar", ["text", "varchar", "blob"]),
    ("timestamp", ["bigint", "blob"]),
    ("timeuuid", ["uuid", "blob"]),
    ("varint", ["blob"])]

/-- Whether a column of type `old` can be given type `new` in place. Case and blanks around the
    names do not count. -/
def isConvertible (old new : String) : Bool :=
  let old := Text.keyword old
  let new := Text.keyword new
  old == new || ((conversions.lookup old).getD []).contains new

theorem isConvertible_of_keyword_eq {old new : String} (h : Text.keyword old = Text.keyword new) :
    isConvertible old new = true := by
  simp [isConvertible, h]

/-- Both types are known, and the new one is another type that the old one cannot be changed to in
    place. -/
def Inconvertible (legacy : Bool) (old new : Option String) : Prop :=
  ∃ o n, old = some o ∧ new = some n ∧ o ≠ n ∧ ¬ (legacy = true ∧ isConvertible o n = true)

@[simp] theorem inconvertible_some_some {legacy : Bool} {o n : String} :
    Inconvertible legacy (some o) (some n) ↔
      o ≠ n ∧ ¬ (legacy = true ∧ isConvertible o n = true) := by
  simp [Inconvertible]

@[simp] theorem not_inconvertible_none_left (legacy : Bool) (new : Option String) :
    ¬ Inconvertible legacy none new := by
  simp [Inconvertible]

@[simp] theorem not_inconvertible_none_right (legacy : Bool) (old : Option String) :
    ¬ Inconvertible legacy old none := by
  simp [Inconvertible]

end CqlType

end AlterScript
