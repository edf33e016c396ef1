/-
  Records in JSON and their attributes.

  A record is an object, of which unknown names are ignored, or an array of its attributes in their
  fixed order. An attribute that a modeling tool writes now as a string, now as a number, now as
  null is read by a total function; a nested record is read strictly, and one that cannot be read
  makes the whole record unreadable.
-/
import AlterScript.Json.Basic
import AlterScript.Text.Blank
import AlterScript.Text.Numeral

namespace AlterScript

namespace Json

/-- The attributes of a record; an array may leave out the last ones. -/
def record? (keys : List String) : Json → Option (Entries Json)
  | obj entries => some entries
  | arr items => if items.length ≤ keys.length then some (keys.zip items) else none
  | _ => none

/-- The attributes of a record of which an array leaves out nothing. -/
def fullRecord? (keys : List String) : Json → Option (Entries Json)
  | obj entries => some entries
  | arr items => if items.length = keys.length then some (keys.zip items) else none
  | _ => none

/-! ## Attributes in several spellings -/

/-- A text: a string that is not blank, or the text of a number. -/
def label? : Option Json → Option String
  | some (str s) => Text.nonBlank s
  | some (num n) => some n.text
  | _ => none

/-- A flag is set by `true`, the word `true` and the integer one. -/
def isSet : Option Json → Bool
  | some (bool b) => b
  | some (str s) => Text.sameFold s "true"
  | some (num n) => n == .int 1
  | _ => false

/-- A truth value or one of the words `true` and `false`. -/
def truth? : Option Json → Option Bool
  | some (bool b) => some b
  | some (str s) =>
    if Text.sameFold s "true" then some true
    else if Text.sameFold s "false" then some false
    else none
  | _ => none

/-- A natural number of 32 bits, as a number or as a numeral. -/
def natural? : Option Json → Option Nat
  | some (num (.int i)) => if 0 ≤ i ∧ i < Nat.pow 2 32 then some i.toNat else none
  | some (str s) => Text.natural32? (Text.trim s)
  | _ => none

/-- The entries of an object; of anything else, none. -/
def entriesOrNone : Option Json → Entries Json
  | some (obj entries) => entries
  | _ => []

/-! ## Strict attributes -/

/-- An attribute that may be missing or null. -/
def optional {α : Type} (read : Json → Option α) : Option Json → Option (Option α)
  | none => some none
  | some null => some none
  | some j => (read j).map some

/-- An attribute that may be missing, but not null. -/
def orDefault {α : Type} (default : α) (read : Json → Option α) : Option Json → Option α
  | none => some default
  | some j => read j

/-- An array, all items of which can be read. -/
def arrayOf {α : Type} (read : Json → Option α) : Json → Option (List α)
  | arr items => items.mapM read
  | _ => none

/-- A list that may be missing or null. -/
def listOf {α : Type} (read : Json → Option α) (j : Option Json) : Option (List α) :=
  (optional (arrayOf read) j).map (·.getD [])

/-- A string and nothing else. -/
def string? : Json → Option String
  | str s => some s
  | _ => none

/-- A truth value and nothing else. -/
def bool? : Json → Option Bool
  | bool b => some b
  | _ => none

end Json

end AlterScript
