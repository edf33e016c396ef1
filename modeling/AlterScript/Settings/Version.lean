/-
  Versions of the database.

  A version is a row of numbers; one that another goes on from with zeros only is the same version.
  `isLegacy_append_zero` : a zero at the end does not make a version newer.
-/
import AlterScript.Text.Blank
import AlterScript.Text.Lines
import AlterScript.Text.Numeral

namespace AlterScript

/-- A text is no version. -/
structure VersionError where
  text : String
deriving DecidableEq, Repr

namespace VersionError

def message (e : VersionError) : String := "Invalid database version '" ++ e.text ++ "'"

end VersionError

/-- The numbers of a version. -/
abbrev Version := List Nat

namespace Version

/-! ## Reading -/

/-- The parts of a version between its points, without blanks around it and a `v` in front. -/
def textParts (s : String) : List (List Char) :=
  Text.parts '.' ((Text.trimChars s.toList).dropWhile fun c => c == 'v' || c == 'V')

/-- A version as it is written: numbers of 32 bits with points between them. -/
def ofText? (s : String) : Option Version :=
  (textParts s).mapM (Text.naturalBelow (Nat.pow 2 32))

def ofText (s : String) : Except VersionError Version :=
  match ofText? s with
  | some v => .ok v
  | none => .error ⟨s⟩

/-! ## Order -/

/-- Compares number by number; missing numbers count as zero. -/
def order : Version → Version → Ordering
  | [], w => if w.all (· == 0) then .eq else .lt
  | x :: xs, w => (compare x (w.headD 0)).then (order xs w.tail)

theorem order_self (v : Version) : order v v = .eq := by
  induction v with
  | nil => rfl
  | cons x xs ih => simp [order, ih]

theorem order_append_zero (v w : Version) : order (v ++ [0]) w = order v w := by
  induction v generalizing w with
  | nil =>
    cases w with
    | nil => rfl
    | cons y ys => cases y <;> simp [order, compare, compareOfLessAndEq]
  | cons x xs ih => simp [order, ih]

/-- The first version that cannot convert types in place. -/
def modern : Version := [3, 0, 11]

/-- Whether a version is old enough to convert types in place. -/
def isLegacy (v : Version) : Bool := order v modern == .lt

theorem isLegacy_append_zero (v : Version) : isLegacy (v ++ [0]) = isLegacy v := by
  simp [isLegacy, order_append_zero]

/-- Whether the version that a text gives is old enough to convert types in place. -/
def isLegacyText (s : String) : Except VersionError Bool := (ofText s).map isLegacy

end Version

end AlterScript
