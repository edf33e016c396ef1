/-
  Literals in CQL: the values of table and view options.
-/
import AlterScript.Json.Basic
import AlterScript.Text.Blank
import AlterScript.Text.Lines
import AlterScript.Text.Numeral
import AlterScript.Text.Quoted

namespace AlterScript

namespace Literal

/-- Whether a trimmed text already is a literal: a map, a decimal number or a truth value. -/
def isLiteral (s : String) : Bool :=
  s.toList.head? == some '\x7b' || Text.isDecimal s || Text.sameFold s "true"
    || Text.sameFold s "false"

/-- A text as an option value: as it stands if it is a literal, else quoted. -/
def ofString (s : String) : String :=
  if isLiteral (Text.trim s) then Text.trim s else Text.quotedLiteral s

/-- Entries between braces. -/
def braced (entries : List String) : String := "\x7b" ++ Text.join ", " entries ++ "\x7d"

mutual

/-- The literal of a value; null and arrays have none. -/
def ofJson? : Json → Option String
  | .null => none
  | .arr _ => none
  | .bool b => some (if b then "true" else "false")
  | .num n => some n.text
  | .str s => some (ofString s)
  | .obj es => some (braced (ofEntries es))
termination_by structural j => j

/-- The entries of a map that have a literal; a text inside a map is always quoted. -/
def ofEntries : List (String × Json) → List String
  | [] => []
  | (k, j) :: r =>
    let value := match j with
      | .str s => some (Text.quotedLiteral s)
      | j => ofJson? j
    match value with
    | some v => (Text.quotedLiteral k ++ ": " ++ v) :: ofEntries r
    | none => ofEntries r
termination_by structural es => es

end

end Literal

end AlterScript
